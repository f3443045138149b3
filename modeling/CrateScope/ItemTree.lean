import CrateScope.Location
import CrateScope.ItemTree.Visibility

/-!
# Item trees

The input of the whole library: what the source text of a crate declares, with every `use` tree
flattened to its leaves.  Item trees come from other tools, so that a name may be missing where
those could not read one.

## Main definitions

* `ModuleBody`, `Item`, `ItemKind` — the contents of a module, and the items in it.
* `UseLeaf`, `ExternCrate` — the two kinds of import.
* `NamespaceSet`, `ItemKind.namespaces` — the namespaces in which an item binds its name.
-/

namespace CrateScope

/-- How the fields of a struct or enum variant are declared. -/
inductive Fields where
  /-- Named fields, as in `{ a: T }`. -/
  | record
  /-- Fields without names, as in `(T)`. -/
  | tuple
  /-- No fields. -/
  | unit
  deriving DecidableEq, Repr

instance : Inhabited Fields := ⟨.record⟩

/-- Some of the three namespaces. -/
structure NamespaceSet where
  types : Bool := false
  values : Bool := false
  macros : Bool := false
  deriving DecidableEq, Repr

/-- With named fields, a struct or variant is a type only.  Otherwise its name is also that of a
constructor, which is a value. -/
def Fields.namespaces : Fields → NamespaceSet
  | record => { types := true }
  | tuple => { types := true, values := true }
  | unit => { types := true, values := true }

/-- A variant of an enum. -/
structure Variant where
  name : Option Name := none
  fields : Fields := .record
  deriving DecidableEq, Repr

/-- One leaf of a `use` tree. -/
structure UseLeaf where
  /-- The imported path.  If it ends in `::*` the import is a glob, whatever `glob` says. -/
  path : String
  /-- The name after `as`. -/
  alias? : Option Name := none
  glob : Bool := false
  visibility : WrittenVisibility := .unmarked
  deriving DecidableEq, Repr

/-- An `extern crate` declaration. -/
structure ExternCrate where
  name : Option Name := none
  /-- The name after `as`. -/
  alias? : Option Name := none
  /-- Whether the macros of the crate come into scope everywhere. -/
  macroUse : Bool := false
  visibility : WrittenVisibility := .unmarked
  deriving DecidableEq, Repr

mutual

/-- The contents of a module, each list in source order. -/
structure ModuleBody where
  items : List Item := []
  uses : List UseLeaf := []
  externCrates : List ExternCrate := []

/-- A declaration. -/
structure Item where
  name : Option Name := none
  visibility : WrittenVisibility := .unmarked
  kind : ItemKind

/-- What is declared. -/
inductive ItemKind where
  | module (body : ModuleBody)
  | enum (variants : List Variant)
  | struct (fields : Fields)
  | union
  | trait
  | typeAlias
  | function
  | const
  | static
  /-- An exported macro is declared at the root of its crate, wherever it stands. -/
  | macroRules (exported : Bool)

end

instance : Inhabited ModuleBody := ⟨{}⟩

namespace ItemKind

/-- The namespaces in which a declaration binds its name. -/
def namespaces : ItemKind → NamespaceSet
  | module _ => { types := true }
  | enum _ => { types := true }
  | struct fields => fields.namespaces
  | union => { types := true }
  | trait => { types := true }
  | typeAlias => { types := true }
  | function => { values := true }
  | const => { values := true }
  | static => { values := true }
  | macroRules _ => { macros := true }

/-- Only modules and enums have names inside them. -/
def isModuleOrEnum : ItemKind → Bool
  | module _ => true
  | enum _ => true
  | _ => false

end ItemKind

/-- The modules declared directly in a body, with their own bodies. -/
def ModuleBody.childModules (body : ModuleBody) : List (Item × ModuleBody) :=
  body.items.filterMap fun item =>
    match item.kind with
    | .module inner => some (item, inner)
    | _ => none

end CrateScope
