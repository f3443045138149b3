import CrateScope.Text.Separated

/-!
# Where modules and items are

Crates are numbered in the order in which a graph declares them, and the modules of a crate in the
order in which they are found.  Items have no number: an item is known by its path from the root
of its crate.

## Main definitions

* `CrateId`, `LocalId`, `ModuleId` — a crate, a module inside a known crate, any module.
* `ItemPath` — a crate and the names from its root down to an item.
* `ItemPath.compare` — crates by number, then names from left to right by code point.
-/

namespace CrateScope

/-- A name: any text without separators, kept as written. -/
abbrev Name := String

/-- The name that binds nothing. -/
def underscore : Name := "_"

/-- The number of a crate in its graph. -/
structure CrateId where
  index : Nat
  deriving DecidableEq, Repr, Ord

/-- The text by which messages show a crate whose name is not known. -/
def CrateId.text (crate : CrateId) : String := "crate#" ++ toString crate.index

/-- The number of a module in its crate.  The root has number zero. -/
structure LocalId where
  index : Nat
  deriving DecidableEq, Repr

/-- The root of every crate. -/
def LocalId.root : LocalId := ⟨0⟩

/-- The text by which log entries show a module. -/
def LocalId.text (module : LocalId) : String :=
  "LocalModuleId(" ++ toString module.index ++ ")"

/-- A module of any crate. -/
structure ModuleId where
  crate : CrateId
  index : LocalId
  deriving DecidableEq, Repr

/-- The root module of a crate. -/
def CrateId.root (crate : CrateId) : ModuleId := ⟨crate, .root⟩

/-- The place of a module or item: its crate, and the names from the root down to it.  Without
names it is the root itself. -/
structure ItemPath where
  crate : CrateId
  segments : List Name := []
  deriving DecidableEq, Repr, Ord

namespace ItemPath

/-- Whether a path is that of a crate's root. -/
def isRoot (path : ItemPath) : Bool := path.segments.isEmpty

/-- The name of the item itself; a root has none. -/
def last? (path : ItemPath) : Option Name := path.segments.getLast?

/-- The path of the enclosing module; a root has none. -/
def parent? (path : ItemPath) : Option ItemPath :=
  if path.isRoot then none else some { path with segments := path.segments.dropLast }

/-- The path of what is called `name` directly inside. -/
def child (path : ItemPath) (name : Name) : ItemPath :=
  { path with segments := path.segments ++ [name] }

/-- The text of a path whose root is shown as `root`. -/
def textFrom (root : String) (path : ItemPath) : String :=
  joinColons (root :: path.segments)

@[simp] theorem crate_child (path : ItemPath) (name : Name) :
    (path.child name).crate = path.crate := rfl

@[simp] theorem segments_child (path : ItemPath) (name : Name) :
    (path.child name).segments = path.segments ++ [name] := rfl

@[simp] theorem last?_child (path : ItemPath) (name : Name) :
    (path.child name).last? = some name := by
  simp [last?]

@[simp] theorem parent?_child (path : ItemPath) (name : Name) :
    (path.child name).parent? = some path := by
  simp [parent?, isRoot]

end ItemPath

end CrateScope
