import CrateScope.Collection

/-!
# Handing names on along globs

When names of a module change, every glob that reads from the module hands the change on, and so
forth.  Each time less can change, so that this comes to an end by itself, also where globs read
from each other; the settings bound the depth nevertheless, and going deeper is an error.

## Main definitions

* `Collection.offered` — what a glob hands on of some names.
* `Collection.handOn` — names of a module are handed on along one glob.
* `Collection.update` — names come to a module, and to all that read from it.
-/

namespace CrateScope

namespace Collection

/-- What a glob in the module `viewer`, with the given visibility, hands on of some names: the
bindings that the module may name. -/
def offered (t : ModuleTree) (viewer : LocalId) (visibility : Visibility)
    (names : List (Name × Meaning)) : List (Name × Meaning) :=
  (names.map fun (name, meaning) => (name, (meaning.visible t viewer).handedOn t visibility)).filter
    fun entry => !entry.2.isEmpty

/-- The error of a name that was handed on too often. -/
def tooDeep (c : Collection) (m : LocalId) (limit : Nat) : Failure where
  error := .globRecursionLimit c.map.name (c.map.displayModule m) limit
  log := c.log

/-- Tells that names of the module `m` are handed on along a glob. -/
def tellHandedOn (c : Collection) (m : LocalId) (edge : GlobEdge) (names : List (Name × Meaning)) :
    Collection :=
  c.tell .trace ("propagating " ++ toString names.length ++ " binding(s) from " ++ m.text ++ " to " ++
    edge.importer.text)

/-- Hands what changed in the module `m` on along one glob that reads from it.  `receiver` brings
names to a module. -/
def handOn (receiver : Collection → LocalId → List (Name × Meaning) → Origin →
    Except Failure Collection) (m : LocalId) (changed : List (Name × Meaning)) (c : Collection)
    (edge : GlobEdge) : Except Failure Collection :=
  let names := offered c.tree edge.importer edge.visibility changed
  if names.isEmpty then .ok c
  else receiver (c.tellHandedOn m edge names) edge.importer names (.glob (c.tree.global m))

/-- Meanings come to some names of the module `m`, and whatever changes is handed on along the globs
that read from it.  `depth` is how many modules in a row may still be entered, `m` included. -/
def update (limit : Nat) : (depth : Nat) → Collection → LocalId → List (Name × Meaning) → Origin →
    Except Failure Collection
  | 0, c, m, _, _ => .error (c.tooDeep m limit)
  | depth + 1, c, m, news, origin =>
    let (c, changed) := c.mergeAll m news origin
    if changed.isEmpty then .ok c
    else (c.edgesFrom m).foldlM (handOn (update limit depth) m changed) c

/-- Meanings come to some names of the module `m` from an import.  Names may be handed on `limit`
times. -/
def receive (c : Collection) (limit : Nat) (m : LocalId) (news : List (Name × Meaning))
    (origin : Origin) : Except Failure Collection :=
  update limit (limit + 1) c m news origin

end Collection

end CrateScope
