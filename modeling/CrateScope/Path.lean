import CrateScope.Location
import CrateScope.Text.Blank

/-!
# Paths as they are written

A path is names separated by `::`, read from left to right.  Its first names may be keywords that
say where to start; they are turned into an `Anchor`, so that no keyword is left among the names.

## Main definitions

* `Anchor` — where a path starts.
* `Path`, `Path.parse?`, `Path.text` — a path, its reader and its writer.

The grammar that `Path.parse?` reads is

    path    ::= "::" name ("::" name)*  |  start ("::" name)*  |  name ("::" name)*
    start   ::= "crate" | "$crate" | "self" ("::" "super")* | "super" ("::" "super")*

with white space allowed around every part.  A name is any text that is not empty, not a keyword
and holds no `::`; it may hold white space inside.
-/

namespace CrateScope

/-- Where a path starts. -/
inductive Anchor where
  /-- The path `a::b` starts from whatever `a` means in scope. -/
  | plain
  /-- The path `crate::a` starts from the root of the crate. -/
  | crate
  /-- The path `self::a` starts from the module itself, and each `super` climbs one module up. -/
  | super (levels : Nat)
  /-- The path `::a` starts from the name of a crate, or in the oldest edition from the root. -/
  | absolute
  deriving DecidableEq, Repr

/-- A path as written in a declaration. -/
structure Path where
  anchor : Anchor
  segments : List Name
  deriving DecidableEq, Repr

/-- The words that cannot be names. -/
def keywords : List Name := ["crate", "$crate", "self", "super"]

/-- No path may climb higher than this. -/
def maxClimb : Nat := 255

namespace Anchor

/-- Reads a run of `super`, and leaves the names after it. -/
def climb? (parts : List Name) : Option (Anchor × List Name) :=
  let supers := parts.takeWhile (· == "super")
  if supers.length ≤ maxClimb then some (.super supers.length, parts.drop supers.length) else none

/-- Reads the keywords at the start of a path that does not begin with `::`. -/
def read? (parts : List Name) : Option (Anchor × List Name) :=
  match parts with
  | [] => some (.plain, [])
  | first :: rest =>
    if first = "crate" ∨ first = "$crate" then some (.crate, rest)
    else if first = "self" then climb? rest
    else if first = "super" then climb? parts
    else some (.plain, parts)

/-- The words that an anchor is written with.  The empty word stands before the `::` that starts
an absolute path. -/
def words : Anchor → List Name
  | plain => []
  | crate => ["crate"]
  | super 0 => ["self"]
  | super levels => List.replicate levels "super"
  | absolute => [""]

end Anchor

namespace Path

/-- The path that is a single name in scope. -/
def ofName (name : Name) : Path := ⟨.plain, [name]⟩

/-- The parts of a path text, without the white space around them.  No part may be empty. -/
def parts? (text : List Char) : Option (List Name) :=
  let parts := (splitColons text).map trim
  if parts.any List.isEmpty then none else some (parts.map String.ofList)

/-- A path with the given names, unless a keyword is among them. -/
def ofNames? (anchor : Anchor) (names : List Name) : Option Path :=
  if names.any keywords.contains then none else some ⟨anchor, names⟩

/-- Reads a path. -/
def parse? (text : String) : Option Path :=
  match trim text.toList with
  | ':' :: ':' :: rest => do ofNames? .absolute (← parts? rest)
  | chars => do
    let (anchor, names) ← Anchor.read? (← parts? chars)
    ofNames? anchor names

/-- The text of a path. -/
def text (path : Path) : String :=
  joinColons (path.anchor.words ++ path.segments)

/-- The first name of a path. -/
def first? (path : Path) : Option Name := path.segments.head?

/-- The last name of a path. -/
def last? (path : Path) : Option Name := path.segments.getLast?

end Path

end CrateScope
