/-!
# What a failure tells the user

Each kind of failure is a type of its own, whose constructors are causes.  What such a cause tells
the user is a `Report`.
-/

namespace CrateScope

/-- The wording of a failure: its message, the code it is known under, and advice if there is
some. -/
structure Report where
  message : String
  code : String
  help : Option String := none
  deriving DecidableEq, Repr

end CrateScope
