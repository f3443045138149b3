import CrateScope.Text.Blank

/-!
# Visibilities as they are written

## Main definitions

* `WrittenVisibility` — the mark on a declaration that says who may name it.
* `WrittenVisibility.parse?`, `WrittenVisibility.text` — its reader and its writer.

White space is allowed everywhere, even inside a keyword, with one exception: in `pub(in path)` the
words `pub` and `in` are written without a gap, and at least one blank stands after `in`.
-/

namespace CrateScope

/-- The mark on a declaration that says who may name it. -/
inductive WrittenVisibility where
  /-- Nothing is written: the module and what it encloses. -/
  | unmarked
  /-- Written `pub`: everyone. -/
  | pub
  /-- Written `pub(crate)`: the crate. -/
  | pubCrate
  /-- Written `pub(super)`: the enclosing module. -/
  | pubSuper
  /-- Written `pub(self)`: the module, as when nothing is written. -/
  | pubSelf
  /-- Written `pub(in path)`: the enclosing module that the path names.  The path is text without
  white space, and need not be one that can be read. -/
  | pubIn (path : String)
  deriving DecidableEq, Repr

namespace WrittenVisibility

instance : Inhabited WrittenVisibility := ⟨unmarked⟩

/-- The text of a visibility. -/
def text : WrittenVisibility → String
  | unmarked => ""
  | pub => "pub"
  | pubCrate => "pub(crate)"
  | pubSuper => "pub(super)"
  | pubSelf => "pub(self)"
  | pubIn path => "pub(in " ++ path ++ ")"

/-- Whether everyone may name what is so marked. -/
def isPublic : WrittenVisibility → Bool
  | pub => true
  | _ => false

/-- The texts, without white space, that stand for a visibility without a path. -/
def keywordForms : List (String × WrittenVisibility) :=
  [("", unmarked), ("priv", unmarked), ("private", unmarked), ("pub", pub),
   ("pub(crate)", pubCrate), ("pub(super)", pubSuper), ("pub(self)", pubSelf)]

/-- What follows `word` at the start of a text. -/
def after? (word : List Char) (text : List Char) : Option (List Char) :=
  if word.isPrefixOf text then some (text.drop word.length) else none

/-- What stands before the closing bracket at the end of a text. -/
def beforeClosing? (text : List Char) : Option (List Char) :=
  if text.getLast? = some ')' then some text.dropLast else none

/-- Reads the path of `pub(in path)`. -/
def restrictedPath? (text : List Char) : Option String := do
  let afterPub ← after? ['p', 'u', 'b'] (trim text)
  let inside ← beforeClosing? (← after? ['('] (trimStart afterPub))
  let afterIn ← after? ['i', 'n'] (trim inside)
  let path := withoutBlanks afterIn
  if afterIn.head?.any isBlank && !path.isEmpty then some (String.ofList path) else none

/-- Reads a visibility. -/
def parse? (text : String) : Option WrittenVisibility :=
  match keywordForms.lookup (String.ofList (withoutBlanks text.toList)) with
  | some visibility => some visibility
  | none => (restrictedPath? text.toList).map pubIn

end WrittenVisibility

end CrateScope
