import CrateScope.ModuleTree

/-!
# Visibilities on the module tree

A visibility as written becomes a module of the tree: the one inside which the binding may be
named.  Restricted bindings cannot be named from any other crate.

## Main definitions

* `Visibility` — everywhere, or within a module.
* `Visibility.isVisibleFrom` — who may name a binding.
* `Visibility.isWiderThan` — a partial order; two modules of which neither encloses the other are
  not comparable.
* `Visibility.narrower` — the visibility of a binding that is handed on.
-/

namespace CrateScope

/-- From where a binding may be named. -/
inductive Visibility where
  | everywhere
  /-- Only inside this module and what it encloses. -/
  | within (scope : ModuleId)
  deriving DecidableEq, Repr

namespace Visibility

/-- Whether a binding may be named from every crate. -/
def isPublic : Visibility → Bool
  | everywhere => true
  | within _ => false

/-- Whether a binding may be named from the module `m` of the tree. -/
def isVisibleFrom (t : ModuleTree) (m : LocalId) : Visibility → Bool
  | everywhere => true
  | within scope => scope.crate == t.crate && t.encloses scope.index m

/-- Whether `a` lets strictly more modules of the tree name a binding than `b`. -/
def isWiderThan (t : ModuleTree) (a b : Visibility) : Bool :=
  match a, b with
  | everywhere, everywhere => false
  | everywhere, within _ => true
  | within _, everywhere => false
  | within wide, within narrow =>
    wide != narrow && wide.crate == narrow.crate && wide.crate == t.crate
      && t.encloses wide.index narrow.index

/-- The visibility that a binding of visibility `a` gets where it is handed on with visibility `b`:
it is never wider than `a`. -/
def narrower (t : ModuleTree) (a b : Visibility) : Visibility :=
  if a.isWiderThan t b then b else a

end Visibility

end CrateScope
