import CrateScope.Listing
import CrateScope.Location

/-!
# The module tree of a crate

Every module of a crate has a number, its position in an array.  An enum counts as a module whose
items are its variants.  Parents are stored by number and children by name; the tree grows only by
adding a child to a module that is already in it, so that every parent has a smaller number than
its children.  That is the one fact that the type keeps, because climbing to the root relies on it.

## Main definitions

* `Module`, `ModuleTree` — a module and the tree of all modules of a crate.
* `ModuleTree.singleton`, `ModuleTree.addChild?` — the two ways to make a tree.
* `ModuleTree.ancestors`, `ModuleTree.encloses` — the way to the root, and who lies on it.
* `ModuleTree.climb?`, `ModuleTree.descend?` — some steps up, and down along some names.
-/

namespace CrateScope

/-- What a module stands for. -/
inductive ModuleKind where
  | module
  | enum
  deriving DecidableEq, Repr

/-- One module of a crate. -/
structure Module where
  /-- Where the module is. -/
  path : ItemPath
  /-- The enclosing module; only the root has none. -/
  parent : Option LocalId
  kind : ModuleKind
  /-- The modules and enums directly inside, in declaration order. -/
  children : Listing Name LocalId := ∅
  deriving DecidableEq

/-- All modules of a crate. -/
structure ModuleTree where
  /-- The crate. -/
  crate : CrateId
  /-- The modules by number, the root first. -/
  modules : Array Module
  /-- There is a root. -/
  size_pos : 0 < modules.size
  /-- A parent has a smaller number than its children. -/
  parent_lt : ∀ (i : Nat) (h : i < modules.size) (p : LocalId),
    modules[i].parent = some p → p.index < i

namespace ModuleTree

/-- Two trees of the same crate with the same modules are equal. -/
@[ext] theorem ext {s t : ModuleTree} (hc : s.crate = t.crate) (hm : s.modules = t.modules) :
    s = t := by
  cases s; cases t; cases hc; cases hm; rfl

instance : DecidableEq ModuleTree := fun s t =>
  if h : s.crate = t.crate ∧ s.modules = t.modules then isTrue (ext h.1 h.2)
  else isFalse fun e => h (by cases e; exact ⟨rfl, rfl⟩)

/-- The number of modules. -/
def size (t : ModuleTree) : Nat := t.modules.size

/-- The numbers of all modules. -/
def ids (t : ModuleTree) : List LocalId := (List.range t.size).map LocalId.mk

/-- A module by its number. -/
def module? (t : ModuleTree) (m : LocalId) : Option Module := t.modules[m.index]?

/-- The module that encloses `m`. -/
def parent? (t : ModuleTree) (m : LocalId) : Option LocalId := (t.module? m).bind Module.parent

/-- Where a module is.  What is not in the tree is taken for the root. -/
def pathOf (t : ModuleTree) (m : LocalId) : ItemPath :=
  ((t.module? m).map Module.path).getD ⟨t.crate, []⟩

/-- The child of `m` with a name. -/
def child? (t : ModuleTree) (m : LocalId) (name : Name) : Option LocalId :=
  (t.module? m).bind fun module => module.children.get? name

/-- The number by which other crates know the module. -/
def global (t : ModuleTree) (m : LocalId) : ModuleId := ⟨t.crate, m⟩

theorem parent?_lt {t : ModuleTree} {m p : LocalId} (h : t.parent? m = some p) :
    p.index < m.index := by
  simp only [parent?, module?, Option.bind_eq_some_iff] at h
  obtain ⟨module, hm, hp⟩ := h
  obtain ⟨hlt, rfl⟩ := Array.getElem?_eq_some_iff.1 hm
  exact t.parent_lt m.index hlt p hp

/-! ### Growing -/

/-- The tree that has only a root. -/
def singleton (crate : CrateId) : ModuleTree where
  crate := crate
  modules := #[{ path := ⟨crate, []⟩, parent := none, kind := .module }]
  size_pos := by simp
  parent_lt := by
    intro i h p hp
    have : i = 0 := by simpa using h
    subst this
    simp at hp

/-- Adds a module called `name` inside `parent`, and gives it the next number.  If `parent` has a
child of that name already, or is not in the tree, nothing is added. -/
def addChild? (t : ModuleTree) (parent : LocalId) (name : Name) (kind : ModuleKind) :
    Option (ModuleTree × LocalId) :=
  if h : parent.index < t.modules.size then
    let host := t.modules[parent.index]
    if host.children.contains name then none
    else
      let number : LocalId := ⟨t.modules.size⟩
      let host' := { host with children := host.children.insert name number }
      let module : Module := { path := host.path.child name, parent := some parent, kind }
      some ({ crate := t.crate
              modules := (t.modules.set parent.index host').push module
              size_pos := by simp
              parent_lt := by
                intro i hi p hp
                rw [Array.getElem_push] at hp
                split at hp
                · next hlt =>
                  rw [Array.getElem_set] at hp
                  have hlt' : i < t.modules.size := by simpa using hlt
                  split at hp
                  · next e => subst e; exact t.parent_lt _ h p hp
                  · exact t.parent_lt i hlt' p hp
                · next hge =>
                  have : t.modules.size ≤ i := by simpa using hge
                  cases hp
                  omega }, number)
  else none

/-! ### Climbing and descending -/

/-- The module itself, then its parent, and so on up to the root. -/
def ancestors (t : ModuleTree) (m : LocalId) : List LocalId :=
  match _h : t.parent? m with
  | none => [m]
  | some p => m :: t.ancestors p
termination_by m.index
decreasing_by exact parent?_lt _h

/-- Whether `a` is `m` or encloses it. -/
def encloses (t : ModuleTree) (a m : LocalId) : Bool := (t.ancestors m).contains a

/-- The module that lies some levels above `m`.  Nothing lies above the root. -/
def climb? (t : ModuleTree) : Nat → LocalId → Option LocalId
  | 0, m => some m
  | levels + 1, m => (t.parent? m).bind (t.climb? levels)

/-- The module that is reached from `m` by going from child to child. -/
def descend? (t : ModuleTree) : LocalId → List Name → Option LocalId
  | m, [] => some m
  | m, name :: names => (t.child? m name).bind (t.descend? · names)

theorem ancestors_of_parent? {t : ModuleTree} {m p : LocalId} (h : t.parent? m = some p) :
    t.ancestors m = m :: t.ancestors p := by
  rw [ancestors]
  split
  · next e => rw [h] at e; cases e
  · next q e => rw [h] at e; cases e; rfl

theorem ancestors_of_parent?_none {t : ModuleTree} {m : LocalId} (h : t.parent? m = none) :
    t.ancestors m = [m] := by
  rw [ancestors]
  split
  · rfl
  · next q e => rw [h] at e; cases e

end ModuleTree

end CrateScope
