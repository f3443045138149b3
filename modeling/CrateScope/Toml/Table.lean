import CrateScope.Description

/-!
# Tables that are still open

A TOML text says what is in a table in several places: under a header, by dotted keys, and by the
headers of the tables inside.  Which of these may add to which table depends on how the table came
up, and is remembered with it until the text ends.

## Main definitions

* `Node`, `Origin` — what is under a key so far, and how a table came up.
* `insertDotted` — a key with its value comes to a table.
* `openTable`, `openElement` — a header opens a table, or one more element of an array of tables.
* `alterAt` — something happens to the table that a header opened.
* `Node.toValue` — what is under a key in the end.

A key that cannot be added is an error of the whole text.
-/

namespace CrateScope

namespace Toml

open Description

/-- How a table came up. -/
inductive Origin where
  /-- It has a header of its own. -/
  | header
  /-- It is on the way to a table that has a header. -/
  | implied
  /-- It is on the way to a value that has a dotted key. -/
  | dotted
  deriving DecidableEq, Repr

/-- What is under a key so far. -/
inductive Node where
  /-- A value, to which nothing can be added. -/
  | closed (value : Value)
  | table (origin : Origin) (fields : List (String × Node))
  /-- An array of tables; only the last can be added to. -/
  | tables (elements : List (List (String × Node)))

/-- The keys of a table with what is under them. -/
abbrev Fields := List (String × Node)

/-- The fields with another node under a key that is there. -/
def replaceUnder (key : String) (node : Node) (fields : Fields) : Fields :=
  fields.map fun field => if field.1 = key then (key, node) else field

/-- Puts a value under a key of a table.  Before the last key of a dotted key come the keys of the
tables in which it is; those that are not there are made.  Tables with a header cannot be added to
in this way, and the value itself can only go into a table that was made in this way, or that is
the one in which the dotted key stands.  `isOpen` says whether `fields` are of such a table. -/
def insertDotted (isOpen : Bool) (path : List String) (key : String) (value : Value)
    (fields : Fields) : Option Fields :=
  match path with
  | [] =>
    if isOpen && (fields.lookup key).isNone then some (fields ++ [(key, .closed value)]) else none
  | name :: path =>
    match fields.lookup name with
    | none => (insertDotted true path key value []).map fun inner =>
      fields ++ [(name, .table .dotted inner)]
    | some (.table .header _) => none
    | some (.table .implied inner) => (insertDotted false path key value inner).map fun inner =>
      replaceUnder name (.table .implied inner) fields
    | some (.table .dotted inner) => (insertDotted true path key value inner).map fun inner =>
      replaceUnder name (.table .dotted inner) fields
    | some (.tables elements) =>
      match elements.getLast? with
      | none => none
      | some inner => (insertDotted false path key value inner).map fun inner =>
        replaceUnder name (.tables (elements.dropLast ++ [inner])) fields
    | some (.closed _) => none

/-- Changes what is under the last key of a header.  Tables before it that are not there are made;
of an array of tables the last is meant. -/
def alterUnder (change : Option Node → Option Node) (path : List String) (key : String)
    (fields : Fields) : Option Fields :=
  match path with
  | [] =>
    match fields.lookup key with
    | none => (change none).map fun node => fields ++ [(key, node)]
    | some node => (change (some node)).map fun node => replaceUnder key node fields
  | name :: path =>
    match fields.lookup name with
    | none => (alterUnder change path key []).map fun inner =>
      fields ++ [(name, .table .implied inner)]
    | some (.table origin inner) => (alterUnder change path key inner).map fun inner =>
      replaceUnder name (.table origin inner) fields
    | some (.tables elements) =>
      match elements.getLast? with
      | none => none
      | some inner => (alterUnder change path key inner).map fun inner =>
        replaceUnder name (.tables (elements.dropLast ++ [inner])) fields
    | some (.closed _) => none

/-- A header opens a table.  It must not be there yet, other than on the way to another one. -/
def openTable : Option Node → Option Node
  | none => some (.table .header [])
  | some (.table .implied fields) => some (.table .header fields)
  | some _ => none

/-- A header opens one more element of an array of tables. -/
def openElement : Option Node → Option Node
  | none => some (.tables [[]])
  | some (.tables elements) => some (.tables (elements ++ [[]]))
  | some _ => none

/-- Changes the table that the header with the given path opened, or the outermost one. -/
def alterAt (change : Fields → Option Fields) (path : List String) (fields : Fields) :
    Option Fields :=
  match path with
  | [] => change fields
  | name :: path =>
    match fields.lookup name with
    | some (.table origin inner) => (alterAt change path inner).map fun inner =>
      replaceUnder name (.table origin inner) fields
    | some (.tables elements) =>
      match elements.getLast? with
      | none => none
      | some inner => (alterAt change path inner).map fun inner =>
        replaceUnder name (.tables (elements.dropLast ++ [inner])) fields
    | _ => none

mutual

/-- What is under a key in the end. -/
def Node.toValue : Node → Value
  | .closed value => value
  | .table _ fields => .table (fieldValues fields)
  | .tables elements => .list (elementValues elements)

/-- What is under some keys in the end. -/
def fieldValues : List (String × Node) → List (String × Value)
  | [] => []
  | (key, node) :: fields => (key, node.toValue) :: fieldValues fields

/-- What some tables are in the end. -/
def elementValues : List (List (String × Node)) → List Value
  | [] => []
  | fields :: elements => .table (fieldValues fields) :: elementValues elements

end

end Toml

end CrateScope
