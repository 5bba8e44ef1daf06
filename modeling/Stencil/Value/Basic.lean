import Stencil.Number.Binary64
import Stencil.Text.Basic
import Stencil.Time.Moment

/-!
# Values

A template is filled with dynamic values: what a data file can hold, and besides tuples, bytes,
one-shot streams and opaque objects. Lists and tuples differ only in that they are never equal to
each other. A map keeps its entries in the order in which they were put. A text in which an escape
has named a surrogate is kept as its code points, apart from all other texts.

Streams and objects have an identity. A stream also carries the items that it yields; how many of
them a run has taken already is kept by the run, so that a value itself never changes.

A list or map can have an identity too (`shared`): a map that stands in several places, so that
setting a part of it sets it everywhere, and a list or map that stands inside itself. There `again`
refers to it, and `exposed` shows such a value with itself in these places.

A value that may be a key of a map is compared by its `Key`: numbers that are equal have one key,
whichever type they have, and a list or a map has none.
-/

namespace Stencil

/-- A value that templates work on. -/
inductive Value where
  /-- The absent value. -/
  | null
  | bool (b : Bool)
  | int (n : Int)
  | float (x : Binary64)
  | text (t : Text)
  /-- A text with a surrogate in it, as its code points. -/
  | points (codes : List Nat)
  | bytes (b : List UInt8)
  | date (d : Date)
  | moment (m : Moment)
  | list (items : List Value)
  | tuple (items : List Value)
  /-- A mapping, its entries in insertion order with distinct keys. -/
  | map (entries : List (Value × Value))
  /-- A source of items that can be passed through once. -/
  | stream (id : Nat) (items : List Value)
  /-- An opaque object with named attributes. -/
  | object (id : Nat) (attributes : List (Text × Value))
  /-- A list or a map with an identity: all that have it are the same one. -/
  | shared (id : Nat) (inside : Value)
  /-- The list or map around it that has this identity. -/
  | again (id : Nat)

/-- What decides whether two keys of a map are the same. -/
inductive Key where
  | null
  | int (n : Int)
  | float (x : Binary64)
  | text (t : Text)
  | points (codes : List Nat)
  | bytes (b : List UInt8)
  | date (d : Date)
  /-- What the clock of a moment without a zone shows. -/
  | clock (n : Int)
  /-- The point in time of a moment with a zone. -/
  | instant (n : Int)
  | tuple (items : List Key)
  | identity (n : Nat)

namespace Key

mutual

/-- Whether two keys are the same key. -/
def beq : Key → Key → Bool
  | .null, .null => true
  | .int a, .int b => a == b
  | .float a, .float b => a == b
  | .text a, .text b => a == b
  | .points a, .points b => a == b
  | .bytes a, .bytes b => a == b
  | .date a, .date b => a == b
  | .clock a, .clock b => a == b
  | .instant a, .instant b => a == b
  | .tuple a, .tuple b => beqAll a b
  | .identity a, .identity b => a == b
  | _, _ => false

/-- Whether two rows of keys are the same, place by place. -/
def beqAll : List Key → List Key → Bool
  | [], [] => true
  | a :: as, b :: bs => beq a b && beqAll as bs
  | _, _ => false

end

mutual

theorem eq_of_beq : ∀ a b : Key, beq a b = true → a = b
  | .null, b, h => by cases b <;> simp_all [beq]
  | .int _, b, h => by cases b <;> simp_all [beq]
  | .float _, b, h => by cases b <;> simp_all [beq]
  | .text _, b, h => by cases b <;> simp_all [beq]
  | .points _, b, h => by cases b <;> simp_all [beq]
  | .bytes _, b, h => by cases b <;> simp_all [beq]
  | .date _, b, h => by cases b <;> simp_all [beq]
  | .clock _, b, h => by cases b <;> simp_all [beq]
  | .instant _, b, h => by cases b <;> simp_all [beq]
  | .identity _, b, h => by cases b <;> simp_all [beq]
  | .tuple as, b, h => by
    cases b with
    | tuple bs => rw [eq_of_beqAll as bs (by simpa [beq] using h)]
    | _ => simp [beq] at h

theorem eq_of_beqAll : ∀ as bs : List Key, beqAll as bs = true → as = bs
  | [], bs, h => by cases bs <;> simp_all [beqAll]
  | a :: as, bs, h => by
    cases bs with
    | nil => simp [beqAll] at h
    | cons b bs =>
      simp only [beqAll, Bool.and_eq_true] at h
      rw [eq_of_beq a b h.1, eq_of_beqAll as bs h.2]

end

mutual

theorem beq_self : ∀ a : Key, beq a a = true
  | .null => rfl
  | .int _ => by simp [beq]
  | .float _ => by simp [beq]
  | .text _ => by simp [beq]
  | .points _ => by simp [beq]
  | .bytes _ => by simp [beq]
  | .date _ => by simp [beq]
  | .clock _ => by simp [beq]
  | .instant _ => by simp [beq]
  | .identity _ => by simp [beq]
  | .tuple as => by rw [beq]; exact beqAll_self as

theorem beqAll_self : ∀ as : List Key, beqAll as as = true
  | [] => rfl
  | a :: as => by rw [beqAll, beq_self a, beqAll_self as]; rfl

end

instance : DecidableEq Key := fun a b =>
  if h : beq a b = true then .isTrue (eq_of_beq a b h)
  else .isFalse fun e => h (e ▸ beq_self a)

end Key

namespace Value

mutual

/-- The key of a value; lists and maps, and tuples that hold one, have none. -/
def key? : Value → Option Key
  | .null => some .null
  | .bool b => some (.int (if b then 1 else 0))
  | .int n => some (.int n)
  | .float x => some (match x.integer? with | some n => .int n | none => .float x)
  | .text t => some (.text t)
  | .points codes => some (.points codes)
  | .bytes b => some (.bytes b)
  | .date d => some (.date d)
  | .moment m =>
    some (match m.zone with | none => .clock m.clock | some zone => .instant (m.instant zone))
  | .list _ => none
  | .tuple items => (keys? items).map .tuple
  | .map _ => none
  | .stream id _ => some (.identity id)
  | .object id _ => some (.identity id)
  | .shared _ _ => none
  | .again _ => none

/-- The keys of a row of values, if each has one. -/
def keys? : List Value → Option (List Key)
  | [] => some []
  | v :: rest =>
    match key? v, keys? rest with
    | some k, some ks => some (k :: ks)
    | _, _ => none

end

/-- Whether the value may be a key of a map. -/
def isKey (v : Value) : Bool := (key? v).isSome

/-- Whether two values are one key of a map. -/
def sameKey (a b : Value) : Bool := isKey a && key? a == key? b

/-- The value stored under a key. -/
def lookup (k : Value) (entries : List (Value × Value)) : Option Value :=
  (entries.find? fun e => sameKey k e.1).map (·.2)

/-- The value stored under a text. -/
def named (name : Text) (entries : List (Value × Value)) : Option Value :=
  lookup (.text name) entries

/-- The entries after storing a value under a key: a key that is present keeps its place and its
spelling and takes the value, a new key comes last. -/
def put (k v : Value) : List (Value × Value) → List (Value × Value)
  | [] => [(k, v)]
  | e :: rest => if sameKey k e.1 then (e.1, v) :: rest else e :: put k v rest

/-- Entries with distinct keys, each with the value that came last. -/
def distinct (entries : List (Value × Value)) : List (Value × Value) :=
  entries.foldl (fun done e => put e.1 e.2 done) []

/-- Whether a condition on the value holds: everything holds but the absent value, false, zero and
what is empty. -/
def truthy : Value → Bool
  | .null => false
  | .bool b => b
  | .int n => n != 0
  | .float x => !x.isZero
  | .text t => !t.isEmpty
  | .points codes => !codes.isEmpty
  | .bytes b => !b.isEmpty
  | .date _ => true
  | .moment _ => true
  | .list items => !items.isEmpty
  | .tuple items => !items.isEmpty
  | .map entries => !entries.isEmpty
  | .stream _ _ => true
  | .object _ _ => true
  | .shared _ inside => truthy inside
  | .again _ => true

/-- The name of a value's type, as messages show it. -/
def typeName : Value → String
  | .null => "NoneType"
  | .bool _ => "bool"
  | .int _ => "int"
  | .float _ => "float"
  | .text _ => "str"
  | .points _ => "str"
  | .bytes _ => "bytes"
  | .date _ => "date"
  | .moment _ => "datetime"
  | .list _ => "list"
  | .tuple _ => "tuple"
  | .map _ => "dict"
  | .stream _ _ => "generator"
  | .object _ _ => "Obj"
  | .shared _ inside => typeName inside
  | .again _ => "list"

/-! ### Values that stand in several places -/

mutual

/-- The value with the collection of an identity put in where it is referred to. -/
def filled (id : Nat) (whole : Value) : Value → Value
  | .list items => .list (filledAll id whole items)
  | .tuple items => .tuple (filledAll id whole items)
  | .map entries => .map (filledEntries id whole entries)
  | .shared n inside => if n = id then .shared n inside else .shared n (filled id whole inside)
  | .again n => if n = id then whole else .again n
  | v => v

/-- A row with a collection put in. -/
def filledAll (id : Nat) (whole : Value) : List Value → List Value
  | [] => []
  | v :: rest => filled id whole v :: filledAll id whole rest

/-- Entries with a collection put in; keys hold none. -/
def filledEntries (id : Nat) (whole : Value) : List (Value × Value) → List (Value × Value)
  | [] => []
  | (k, v) :: rest => (k, filled id whole v) :: filledEntries id whole rest

end

/-- A value without its identity. It refers to itself no more, but holds itself. -/
def exposed : Value → Value
  | .shared id inside => filled id (.shared id inside) inside
  | v => v

/-- The items of a value whose items have positions: a list, a tuple, or bytes as integers. Text is
not taken apart. -/
def sequence? (v : Value) : Option (List Value) :=
  match v.exposed with
  | .list items => some items
  | .tuple items => some items
  | .bytes b => some (b.map fun x => .int x.toNat)
  | _ => none

/-- The entries of a map. -/
def entries? (v : Value) : Option (List (Value × Value)) :=
  match v.exposed with
  | .map entries => some entries
  | _ => none

/-- The text that code points spell, as a value. -/
def ofPoints (codes : List Nat) : Value :=
  match Text.ofPoints? codes with
  | some t => .text t
  | none => .points codes

/-- Whether a value is an object with an attribute of a name. -/
def hasAttribute (name : String) : Value → Bool
  | .object _ attributes => attributes.any fun a => a.1 == Text.ofString name
  | _ => false

/-- Whether a value passes for one that has items to go through, though it has none: an object with
an attribute of the name that stands for going through items. -/
def claimsItems (v : Value) : Bool := v.hasAttribute "__iter__"

/-- Whether a value passes for one that can be looked up, though it cannot: an object with an
attribute of the name that stands for looking up. -/
def claimsEntries (v : Value) : Bool := v.hasAttribute "get"

end Value
end Stencil
