/-!
# Editions

The edition of a crate decides how its paths are read.
-/

namespace CrateScope

/-- The edition of the language in which a crate is written, the oldest first. -/
inductive Edition where
  | e2015
  | e2018
  | e2021
  deriving DecidableEq, Repr

namespace Edition

/-- The edition of a crate when nothing else is said. -/
def newest : Edition := e2021

instance : Inhabited Edition := ⟨newest⟩

/-- The year that names an edition. -/
def text : Edition → String
  | e2015 => "2015"
  | e2018 => "2018"
  | e2021 => "2021"

/-- The edition that a year names. -/
def ofText? (year : String) : Option Edition :=
  [e2015, e2018, e2021].find? fun edition => edition.text == year

/-- What is said about a text that names no edition. -/
def unknownMessage (text : String) : String :=
  "unknown edition `" ++ text ++ "`"

/-- Since 2018, `::a` names a crate, and the paths of imports are read as all other paths: from
the module in which they stand. -/
def hasUniformPaths : Edition → Bool
  | e2015 => false
  | e2018 => true
  | e2021 => true

@[simp] theorem ofText?_text (edition : Edition) : ofText? edition.text = some edition := by
  cases edition <;> decide

end Edition

end CrateScope
