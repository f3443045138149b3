/-!
# Descriptions

Crate graphs, item trees and settings are described in a data format: a file in TOML, or JSON from
another tool.  What both formats can say is a `Value`; what is read from it depends on the format
only in a few spellings, which make up its `Dialect`.

## Main definitions

* `Description.Value` — what a data format can say.
* `Description.Dialect` — what may stand for a record or for a word.
* `Description.Record` — the fields of a record, by name or by position.
* `Description.choice?` — reading one of some words.

Fields that are not asked for are ignored, and a field that is missing has its default.
-/

namespace CrateScope

namespace Description

/-- What a data format can say. -/
inductive Value where
  | null
  | bool (b : Bool)
  | int (n : Int)
  /-- A number that is no integer.  Nothing is described by such a number. -/
  | float
  /-- A date, a time of day, or both.  Nothing is described by one. -/
  | date
  | text (s : String)
  | list (elements : List Value)
  /-- Each key occurs once. -/
  | table (fields : List (String × Value))

instance : Inhabited Value := ⟨.null⟩

/-- What a format lets stand for a record, or for one of a fixed choice of words.

A list stands for a record when its elements are the values of the record's fields in order; those
at the end may be missing.  A table with a single key stands for the word that is its key. -/
structure Dialect where
  /-- Elements beyond the last field are ignored instead of refused. -/
  longLists : Bool
  /-- In a table that stands for a word, the value may be null. -/
  nullUnderWord : Bool
  /-- In a table that stands for a word, the value may be the empty table. -/
  emptyTableUnderWord : Bool
  /-- In a table that stands for a word, the value may be the empty list. -/
  emptyListUnderWord : Bool
  /-- The word for the kind of an item may also be its number among the kinds. -/
  numberedKinds : Bool
  deriving DecidableEq, Repr

namespace Dialect

/-- The dialect of files. -/
def toml : Dialect where
  longLists := true
  nullUnderWord := false
  emptyTableUnderWord := true
  emptyListUnderWord := true
  numberedKinds := false

/-- The dialect of other tools. -/
def json : Dialect where
  longLists := false
  nullUnderWord := true
  emptyTableUnderWord := false
  emptyListUnderWord := false
  numberedKinds := true

/-- The dialect inside an item, where what belongs to the kind of the item is set aside until the
kind is known. -/
def insideItem (d : Dialect) : Dialect where
  longLists := false
  nullUnderWord := true
  emptyTableUnderWord := true
  emptyListUnderWord := false
  numberedKinds := d.numberedKinds

end Dialect

/-! ### Leaves -/

namespace Value

/-- A truth value. -/
def bool? : Value → Option Bool
  | bool b => some b
  | _ => none

/-- A text. -/
def text? : Value → Option String
  | text s => some s
  | _ => none

/-- A text that may be missing. -/
def optionalText? : Value → Option (Option String)
  | null => some none
  | text s => some (some s)
  | _ => none

/-- A number that counts something: at most what fits in sixty-four bits. -/
def count? : Value → Option Nat
  | int n => if 0 ≤ n ∧ n < 0x10000000000000000 then some n.toNat else none
  | _ => none

/-- The elements of a list. -/
def list? : Value → Option (List Value)
  | list elements => some elements
  | _ => none

end Value

/-- Reads one of some words. -/
def choice? {α : Type} (d : Dialect) (words : List (String × α)) : Value → Option α
  | .text word => words.lookup word
  | .table [(word, .null)] => if d.nullUnderWord then words.lookup word else none
  | .table [(word, .table [])] => if d.emptyTableUnderWord then words.lookup word else none
  | .table [(word, .list [])] => if d.emptyListUnderWord then words.lookup word else none
  | _ => none

/-! ### Records -/

/-- The fields of a record. -/
inductive Record where
  | named (fields : List (String × Value))
  | positional (values : List Value)

/-- Reads a value as a record of some number of fields. -/
def record? (d : Dialect) (size : Nat) : Value → Option Record
  | .table fields => some (.named fields)
  | .date => some (.named [])
  | .list values => if values.length ≤ size ∨ d.longLists then some (.positional values) else none
  | _ => none

namespace Record

/-- The value of a field that has the given name and position. -/
def get? (r : Record) (name : String) (position : Nat) : Option Value :=
  match r with
  | named fields => fields.lookup name
  | positional values => values[position]?

/-- Reads a field, which has a default if it can be missing. -/
def read {α : Type} (r : Record) (name : String) (position : Nat) (default : Option α)
    (decode : Value → Option α) : Option α :=
  match r.get? name position with
  | none => default
  | some value => decode value

end Record

end Description

end CrateScope
