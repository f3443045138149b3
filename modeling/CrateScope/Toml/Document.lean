import CrateScope.Toml.Scalar
import CrateScope.Toml.Table

/-!
# TOML texts

A text is read in two steps.  First it is taken apart into statements: headers, and keys with their
values.  Then the statements are carried out one after the other.

## Main definitions

* `keyReader`, `valueReader` — dotted keys, and values of any kind.
* `Statement`, `statementReader` — what a line says.
* `Document.parse?` — the fields of the table that a text describes.
-/

namespace CrateScope

namespace Toml

open Description

/-- Arrays and inline tables can be nested so deep. -/
def maxNesting : Nat := 79

/-- A dotted key can have so many parts. -/
def maxKeyParts : Nat := 79

/-! ### Keys -/

/-- Characters of keys that are not quoted. -/
def isKeyChar (c : Char) : Bool := c.isAlphanum || c == '-' || c == '_'

/-- One part of a dotted key. -/
def keyPartReader : Reader String :=
  Reader.firstOf
    [basicString, literalString, (do return .ofList (← Reader.takeSome isKeyChar))]

/-- A dotted key: the parts before the last, and the last. -/
def keyReader : Reader (List String × String) := do
  let parts ← Reader.separated (do spaces; let part ← keyPartReader; spaces; return part)
    (Reader.char '.')
  if parts.length ≤ maxKeyParts then
    Reader.ofOption (parts.getLast?.map fun last => (parts.dropLast, last))
  else Reader.refuse

/-! ### Values -/

/-- A comment, up to the end of its line. -/
def comment : Reader Unit := do
  let _ ← Reader.char '#'
  let _ ← Reader.takeWhile isLineChar

/-- Blanks, ends of lines, and comments that end with their line. -/
def gap : Reader Unit := do
  let _ ← Reader.many <| Reader.firstOf
    [newline, (do let _ ← Reader.takeSome isSpace), (do comment; newline)]

/-- The elements of an array, between its brackets. -/
def arrayReader (element : Reader Value) : Reader Value := do
  let _ ← Reader.char '['
  let elements ← Reader.optional
    (Reader.separated (do gap; let value ← element; gap; return value) (Reader.char ','))
  if elements.isSome then
    let _ ← Reader.optional (Reader.char ',')
  gap
  let _ ← Reader.char ']'
  return .list (elements.getD [])

/-- The pairs of an inline table, between its braces.  It cannot be added to from outside. -/
def inlineTableReader (element : Reader Value) : Reader Value := do
  let _ ← Reader.char '\x7b'
  let pairs ← Reader.optional <| Reader.separated
    (do
      let (path, key) ← keyReader
      let _ ← Reader.char '='
      spaces
      let value ← element
      spaces
      return (path, key, value))
    (Reader.char ',')
  spaces
  let _ ← Reader.char '\x7d'
  let fields ← Reader.ofOption <| (pairs.getD []).foldlM
    (fun fields (path, key, value) => insertDotted true path key value fields) []
  return .table (fieldValues fields)

/-- A value in which arrays and inline tables are nested at most so deep. -/
def valueReader : (depth : Nat) → Reader Value
  | 0 => Reader.firstOf [(do return .text (← stringReader)), scalarReader]
  | depth + 1 => Reader.firstOf
    [(do return .text (← stringReader)), scalarReader, arrayReader (valueReader depth),
      inlineTableReader (valueReader depth)]

/-! ### Statements -/

/-- What a line says. -/
inductive Statement where
  /-- A key has a value. -/
  | pair (path : List String) (key : String) (value : Value)
  /-- What follows is about a table. -/
  | table (path : List String) (key : String)
  /-- What follows is about one more element of an array of tables. -/
  | element (path : List String) (key : String)

/-- What may stand at the end of a line. -/
def lineEnd : Reader Unit := do
  spaces
  let _ ← Reader.optional comment
  newline.orElse Reader.atEnd

/-- A statement with the end of its line. -/
def statementReader : Reader Statement :=
  Reader.firstOf
    [(do
      Reader.word ['[', '[']
      let (path, key) ← keyReader
      Reader.word [']', ']']
      lineEnd
      return .element path key),
    (do
      let _ ← Reader.char '['
      let (path, key) ← keyReader
      let _ ← Reader.char ']'
      lineEnd
      return .table path key),
    (do
      let (path, key) ← keyReader
      let _ ← Reader.char '='
      spaces
      let value ← valueReader maxNesting
      lineEnd
      return .pair path key value)]

/-- A line: a statement, or nothing but a comment. -/
def lineReader : Reader (Option Statement) :=
  Reader.firstOf
    [(do newline; return none),
    (do let _ ← Reader.takeSome isSpace; return none),
    (do comment; newline.orElse Reader.atEnd; return none),
    (do return some (← statementReader))]

/-- All statements of a text, which may start with a byte order mark. -/
def statementsReader : Reader (List Statement) := do
  let _ ← Reader.optional (Reader.char '\ufeff')
  let lines ← Reader.many lineReader
  Reader.atEnd
  return lines.filterMap id

/-! ### The table -/

/-- What the statements so far have made. -/
structure Document where
  fields : Fields := []
  /-- The path of the table that is spoken of. -/
  current : List String := []

namespace Document

/-- Carries a statement out. -/
def add (d : Document) : Statement → Option Document
  | .pair path key value =>
    (alterAt (insertDotted true path key value) d.current d.fields).map fun fields =>
      { d with fields }
  | .table path key =>
    (alterUnder openTable path key d.fields).map fun fields => ⟨fields, path ++ [key]⟩
  | .element path key =>
    (alterUnder openElement path key d.fields).map fun fields => ⟨fields, path ++ [key]⟩

/-- The fields of the table that a text describes. -/
def parse? (text : String) : Option (List (String × Value)) := do
  let (statements, _) ← statementsReader text.toList
  let d ← statements.foldlM add {}
  return fieldValues d.fields

end Document

end Toml

end CrateScope
