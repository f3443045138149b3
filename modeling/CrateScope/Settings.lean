import CrateScope.Edition

/-!
# Settings of a build
-/

namespace CrateScope

/-- What can be set for a build as a whole. -/
structure Settings where
  /-- The edition of crates that declare none. -/
  edition : Edition := .newest
  /-- How far a name may be handed on from glob import to glob import. -/
  globLimit : Nat := 100
  /-- The module whose public names are in scope everywhere, as the text of a path whose first name
  is that of a dependency. -/
  prelude : Option String := none
  deriving DecidableEq, Repr

instance : Inhabited Settings := ⟨{}⟩

end CrateScope
