import CrateScope.Graph

/-!
# Dependencies of dependencies, and the order of building

Both traversals of the dependency relation carry the list of crates that they have not reached
yet.  A crate leaves that list when it is entered, so that the length of the list bounds what is
left to do even where the relation has cycles.  In the second one that list and the order so far are
the marks of all crates.

## Main definitions

* `CrateGraph.transitiveDependencies` — every crate that a crate reaches, itself excluded.
* `CrateGraph.Mark`, `CrateGraph.mark` — how far the visit of a crate has come.
* `CrateGraph.topologicalOrder` — all crates, each after its dependencies.
-/

namespace CrateScope

namespace CrateGraph

/-! ### Everything a crate depends on -/

/-- Collects what is reachable from the crates in `stack`, the topmost first.  `fresh` holds the
crates that were not reached before, and `found` those that were.  Coming back to `start` is an
error, any other cycle is not. -/
def reach (g : CrateGraph) (start : CrateId) (fresh : List CrateId) (found : List CrateId)
    (stack : List CrateId) : Except GraphError (List CrateId) :=
  match stack with
  | [] => .ok found
  | crate :: rest =>
    if crate = start then .error (.dependencyCycle (g.nameOf start))
    else if _h : crate ∈ fresh then do
      let dependencies ← g.dependencies crate
      reach g start (fresh.erase crate) (crate :: found) (dependencies.reverse ++ rest)
    else reach g start fresh found rest
termination_by (fresh.length, stack.length)
decreasing_by
  · have := List.length_erase_of_mem _h
    have := List.length_pos_of_mem _h
    exact Prod.Lex.left _ _ (by omega)
  · exact Prod.Lex.right _ (by simp)

/-- Some crates in the order of their numbers. -/
def sorted (crates : List CrateId) : List CrateId :=
  crates.mergeSort fun a b => a.index ≤ b.index

/-- Every crate that is reachable from `id` by dependencies, in the order of their numbers, without
`id` itself. -/
def transitiveDependencies (g : CrateGraph) (id : CrateId) : Except GraphError (List CrateId) := do
  let dependencies ← g.dependencies id
  let found ← g.reach id g.ids [] dependencies.reverse
  return sorted found

/-! ### The order of building -/

/-- How far the visit of a crate has come. -/
inductive Mark where
  | unvisited
  /-- The crate is being visited right now. -/
  | inProgress
  | done
  deriving DecidableEq, Repr

/-- The mark of a crate.  The crates in `done` were visited, and of the others no visit has begun as
long as they are in `fresh`. -/
def mark (fresh done : List CrateId) (id : CrateId) : Mark :=
  if id ∈ done then .done else if id ∈ fresh then .unvisited else .inProgress

theorem mark_eq_done_iff {fresh done : List CrateId} {id : CrateId} :
    mark fresh done id = .done ↔ id ∈ done := by
  unfold mark
  split
  · next h => simp [h]
  · next h => split <;> simp [h]

theorem mark_eq_unvisited_iff {fresh done : List CrateId} {id : CrateId} :
    mark fresh done id = .unvisited ↔ id ∉ done ∧ id ∈ fresh := by
  unfold mark
  split
  · next h => simp [h]
  · next h => split <;> simp_all

theorem mark_eq_inProgress_iff {fresh done : List CrateId} {id : CrateId} :
    mark fresh done id = .inProgress ↔ id ∉ done ∧ id ∉ fresh := by
  unfold mark
  split
  · next h => simp [h]
  · next h => split <;> simp_all

/-- Adds `id` to the order `done`, after everything it depends on.  A crate that comes up while it
is being visited depends on itself. -/
def visit (g : CrateGraph) (fresh : List CrateId) (done : List CrateId) (id : CrateId) :
    Except GraphError (List CrateId) :=
  match _h : mark fresh done id with
  | .done => .ok done
  | .inProgress => .error (.dependencyCycle (g.nameOf id))
  | .unvisited => do
    let dependencies ← g.dependencies id
    let done ← dependencies.foldlM (fun done dependency => visit g (fresh.erase id) done dependency)
      done
    return done ++ [id]
termination_by fresh.length
decreasing_by
  have hmem := (mark_eq_unvisited_iff.1 _h).2
  have := List.length_erase_of_mem hmem
  have := List.length_pos_of_mem hmem
  omega

/-- All crates, each after every crate it depends on. -/
def topologicalOrder (g : CrateGraph) : Except GraphError (List CrateId) :=
  g.ids.foldlM (visit g g.ids) []

end CrateGraph

end CrateScope
