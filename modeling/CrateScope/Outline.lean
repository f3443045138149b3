import CrateScope.Import

/-!
# The outline of a crate

The outline of a crate is what its item tree says before any import is looked at: the module tree,
the declared names with their visibilities, and the imports in the order in which they are to be
tried.  It is made in one walk over the item tree.

## Main definitions

* `Outline` — the map so far, and the imports that wait.
* `Path.aim?`, `ModuleTree.encloser?`, `CrateMap.restrictionScope?` — the module that a
  `pub(in path)` names.
* `Outline.judge` — the visibility of a declaration.
* `Outline.declare` — binding a declared name; the first declaration of a slot stays.
* `Outline.addUse`, `Outline.addExternCrate`, `Outline.addItem`, `Outline.addBody` — the walk.
* `Outline.ofBody` — the outline of a crate.

Of the declarations of a module, its imports come first, so that the imports of a module stand
before those of the modules inside.  The walk carries the names of the modules on the way to where
it is, the root left out.
-/

namespace CrateScope

/-! ### Visibility -/

/-- The names from the root that the path of a restricted visibility stands for, in a module with
the names `chain` on the way to it.  A path that starts with a name is read from the root before
2018 and means nothing since then. -/
def Path.aim? (edition : Edition) (chain : List Name) (path : Path) : Option (List Name) :=
  match path.anchor with
  | .crate => some path.segments
  | .super levels =>
    if levels ≤ chain.length then some (chain.take (chain.length - levels) ++ path.segments)
    else none
  | .plain => if edition.hasUniformPaths then none else some path.segments
  | .absolute => if edition.hasUniformPaths then none else some path.segments

namespace ModuleTree

/-- Whether the names on the way to a module are those of `target`, as far as `target` goes, and are
the names that the modules on the way have in the tree.  The way is given from some depth on, a name
and a module for each step. -/
def inStep (t : ModuleTree) (target : List Name) (depth : Nat) : List (Name × LocalId) → Bool
  | [] => true
  | (syntactic, semantic) :: way =>
    if target.length ≤ depth then true
    else if target[depth]? ≠ some syntactic ∨ (t.pathOf semantic).last? ≠ some syntactic then false
    else t.inStep target (depth + 1) way

/-- The module that has the path `target`, if it is `m` or one of the modules around.  Two ways from
the root to `m` are gone in step: the names `chain` of the bodies that are walked over, and the
modules above `m` in the tree. -/
def encloser? (t : ModuleTree) (m : LocalId) (chain target : List Name) : Option LocalId :=
  let semantic := (t.ancestors m).reverse
  if h : semantic.length ≠ chain.length + 1 ∨ chain.length < target.length then none
  else if t.inStep target 0 (chain.zip semantic.tail) then some semantic[target.length]
  else none

end ModuleTree

/-- The module that `pub(in text)` names in the module `m`, with the names `chain` on the way to it.
It has to be `m` or enclose it. -/
def CrateMap.restrictionScope? (map : CrateMap) (m : LocalId) (chain : List Name) (text : String) :
    Option LocalId := do
  let path ← Path.parse? text
  let target ← path.aim? map.edition chain
  map.tree.encloser? m chain target

/-- The map of a crate as far as its declarations have been walked over, and the imports found. -/
structure Outline where
  map : CrateMap
  /-- The imports, in the order in which they are to be tried. -/
  imports : List Import := []
  log : Log := #[]

namespace Outline

/-- Tells something. -/
def tell (o : Outline) (level : Level) (text : String) : Outline :=
  { o with log := o.log.push ⟨level, text⟩ }

/-- Records a diagnostic. -/
def diagnose (o : Outline) (diagnostic : Diagnostic) : Outline :=
  { o with map := o.map.diagnose diagnostic }

/-- Records that a declaration in `m` is skipped. -/
def skip (o : Outline) (m : LocalId) (what : Incomplete) : Outline :=
  let module := o.map.displayModule m
  (o.tell .warn ("skipping " ++ what.words ++ " without a name in `" ++ module ++ "`")).diagnose
    (.malformedItem module what)

/-- Records that a name is declared once more. -/
def refuse (o : Outline) (slot : Slot) : Outline :=
  let module := o.map.displayModule slot.module
  (o.tell .debug ("duplicate definition of `" ++ slot.name ++ "` (" ++ slot.space.word ++
    ") in `" ++ module ++ "`")).diagnose (.duplicateDefinition module slot.name slot.space)

/-- The visibility of what is called `name` in the module `m`, with the names `chain` on the way to
it.  Where the mark names no enclosing module, the declaration counts as public. -/
def judge (o : Outline) (m : LocalId) (chain : List Name) (mark : WrittenVisibility) (name : Name) :
    Outline × Visibility :=
  match mark with
  | .pub => (o, .everywhere)
  | .unmarked => (o, .within (o.map.tree.global m))
  | .pubSelf => (o, .within (o.map.tree.global m))
  | .pubCrate => (o, .within (o.map.tree.global .root))
  | .pubSuper =>
    match o.map.tree.parent? m with
    | some parent => (o, .within (o.map.tree.global parent))
    | none =>
      (o.tell .warn ("`pub(super)` on `" ++ name ++ "` at the crate root of `" ++ o.map.name ++
        "`"), .everywhere)
  | .pubIn text =>
    match o.map.restrictionScope? m chain text with
    | some scope => (o, .within (o.map.tree.global scope))
    | none =>
      let module := o.map.displayModule m
      ((o.tell .warn ("visibility `pub(in " ++ text ++ ")` on `" ++ name ++ "` in `" ++ module ++
        "` degraded to `pub`")).diagnose (.unresolvedVisibility module name text), .everywhere)

/-! ### Declarations -/

/-- Declares a slot.  What was declared before stays. -/
def declareSlot (o : Outline) (slot : Slot) (b : Binding) : Outline :=
  match o.map.binding? slot with
  | none => { o with map := o.map.bind slot b }
  | some _ => o.refuse slot

/-- Declares a name in every namespace in which it means something. -/
def declare (o : Outline) (m : LocalId) (name : Name) (meaning : Meaning) : Outline :=
  meaning.toList.foldl (fun o (space, b) => o.declareSlot ⟨m, name, space⟩ b) o

/-- Declares an item that is neither a module nor an enum. -/
def declareLeaf (o : Outline) (m : LocalId) (name : Name) (visibility : Visibility)
    (shape : NamespaceSet) : Outline :=
  let path := (o.map.tree.pathOf m).child name
  o.declare m name (.ofShape { path, visibility, isModuleOrEnum := false } shape)

/-- Declares the variants of an enum, which are as visible as the enum itself. -/
def declareVariants (o : Outline) (enum : LocalId) (visibility : Visibility)
    (variants : List Variant) : Outline :=
  variants.foldl (fun o variant =>
    match variant.name with
    | none => o.skip enum .enumVariant
    | some name => o.declareLeaf enum name visibility variant.fields.namespaces) o

/-- Adds a module and declares its name. -/
def openChild? (o : Outline) (m : LocalId) (name : Name) (visibility : Visibility)
    (kind : ModuleKind) : Option (Outline × LocalId) :=
  (o.map.addChild? m name kind).map fun (map, child) =>
    (({ o with map } : Outline).declare m name (.only .types (map.moduleBinding child visibility)),
      child)

/-! ### Imports -/

/-- Queues an import. -/
def enqueue (o : Outline) (declaration : Import) : Outline :=
  { o with imports := o.imports ++ [declaration] }

/-- The path of a leaf, without a `::*` at its end, and whether it is a glob. -/
def globForm (leaf : UseLeaf) : String × Bool :=
  match (trimEnd leaf.path.toList).reverse with
  | '*' :: ':' :: ':' :: rest => (String.ofList rest.reverse, true)
  | _ => (leaf.path, leaf.glob)

/-- Queues a leaf of a `use` tree.  A leaf needs a name to bind: the one after `as`, or the last of
its path.  Binding `_` binds nothing. -/
def addUse (m : LocalId) (chain : List Name) (o : Outline) (leaf : UseLeaf) : Outline :=
  let (text, isGlob) := globForm leaf
  match Path.parse? text with
  | none => o.skip m .usePath
  | some path =>
    if isGlob then
      let (o, visibility) := o.judge m chain leaf.visibility "*"
      o.enqueue { module := m, path, name := none, visibility, kind := .glob }
    else
      match leaf.alias?.or path.last? with
      | none => o.skip m .usePath
      | some name =>
        if name = underscore then
          o.tell .trace ("skipping underscore import `" ++ path.text ++ "`")
        else
          let (o, visibility) := o.judge m chain leaf.visibility name
          o.enqueue { module := m, path, name := some name, visibility, kind := .named }

/-- Queues an `extern crate`. -/
def addExternCrate (m : LocalId) (chain : List Name) (o : Outline) (declaration : ExternCrate) :
    Outline :=
  match declaration.name with
  | none => o.skip m .externCrate
  | some crate =>
    let name := declaration.alias?.getD crate
    let (o, visibility) := o.judge m chain declaration.visibility name
    o.enqueue
      { module := m
        path := .ofName crate
        name := if name = underscore then none else some name
        visibility
        kind := .externCrate declaration.macroUse }

/-! ### The walk -/

mutual

/-- Walks over the contents of the module `m`, with the names `chain` on the way to it. -/
def addBody (o : Outline) (m : LocalId) (chain : List Name) : ModuleBody → Outline
  | ⟨items, uses, externCrates⟩ =>
    addItems (externCrates.foldl (addExternCrate m chain) (uses.foldl (addUse m chain) o)) m chain
      items

/-- Walks over some items of the module `m`. -/
def addItems (o : Outline) (m : LocalId) (chain : List Name) : List Item → Outline
  | [] => o
  | item :: items => addItems (addItem o m chain item) m chain items

/-- Walks over an item of the module `m`. -/
def addItem (o : Outline) (m : LocalId) (chain : List Name) : Item → Outline
  | ⟨none, _, _⟩ => o.skip m .item
  | ⟨some name, mark, kind⟩ =>
    let (o, visibility) := o.judge m chain mark name
    addKind o m chain name visibility kind

/-- Declares an item of the module `m`, and walks over what is inside.  A module or enum whose name
is taken is left out with everything inside. -/
def addKind (o : Outline) (m : LocalId) (chain : List Name) (name : Name)
    (visibility : Visibility) : ItemKind → Outline
  | .module body =>
    match o.openChild? m name visibility .module with
    | none => o.refuse ⟨m, name, .types⟩
    | some (o, child) => addBody o child (chain ++ [name]) body
  | .enum variants =>
    match o.openChild? m name visibility .enum with
    | none => o.refuse ⟨m, name, .types⟩
    | some (o, child) => o.declareVariants child visibility variants
  | .macroRules true => o.declareLeaf .root name .everywhere { macros := true }
  | kind => o.declareLeaf m name visibility kind.namespaces

end

/-- The outline of a crate: the map that has only a root, with everything in the body added. -/
def ofBody (map : CrateMap) (body : ModuleBody) : Outline :=
  let o := addBody { map } .root [] body
  o.tell .debug ("built module tree for `" ++ o.map.name ++ "`: " ++ toString o.map.tree.size ++
    " module(s), " ++ toString o.imports.length ++ " import(s)")

end Outline

end CrateScope
