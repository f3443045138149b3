import CrateScope.CrateMap
import CrateScope.Log
import CrateScope.Path

/-!
# Resolving paths

A path is resolved against the map of a crate, as seen from one of its modules.  The first step
finds where the path starts, from its anchor or from what its first name means in scope.  After
that each name is looked up inside the module that the names before it stand for, and only the
bindings that the asking module may name are seen.

Maps are asked while they are still being filled, so that a failure is of two sorts: one that
another import may repair, and one that is final.

## Main definitions

* `PathUse` — whether the path is that of an import.
* `Resolution` — what a path means, and how final that is.
* `View.start`, `View.follow`, `View.resolve` — the first step, the others, and both together.
-/

namespace CrateScope

/-- What a path is written for.  Before 2018 the paths of imports start from the root of the
crate, all other paths from the module in which they stand. -/
inductive PathUse where
  | inImport
  | elsewhere
  deriving DecidableEq, Repr

/-- What a path means. -/
structure Resolution where
  meaning : Meaning
  /-- Whether no further import can change a failure into a success. -/
  settled : Bool
  /-- Whether a name was looked up in another crate. -/
  leavesCrate : Bool
  deriving DecidableEq, Repr

/-- The resolution of a path that means nothing. -/
def Resolution.failed (settled : Bool) : Resolution :=
  { meaning := ∅, settled, leavesCrate := false }

/-- Why a path cannot be started. -/
inductive Miss where
  /-- It can never be. -/
  | final
  /-- An import that is still waiting may bring the name of a crate. -/
  | waiting
  /-- The first name is not bound, or not yet. -/
  | unbound (name : Name)
  deriving DecidableEq, Repr

/-- Whether no import can repair a miss. -/
def Miss.settled : Miss → Bool
  | final => true
  | waiting => false
  | unbound _ => false

namespace View

/-! ### Names in scope -/

/-- The meaning of the name of a crate. -/
def externMeaning (view : View) (name : Name) : Meaning :=
  match view.own.externPrelude.get? name with
  | some root => .only .types (view.moduleBinding root)
  | none => ∅

/-- The meaning that the prelude module gives to a name.  Of another crate's module only the
public names count. -/
def preludeMeaning (view : View) (name : Name) : Meaning :=
  match view.own.prelude with
  | none => ∅
  | some prelude =>
    if prelude.crate = view.crate then view.meaning prelude name
    else (view.meaning prelude name).publicPart

/-- The meaning that a name has as a macro of the prelude of macros. -/
def macroMeaning (view : View) (name : Name) : Meaning :=
  match view.own.macroPrelude.get? name with
  | some b => .only .macros b
  | none => ∅

/-- The meaning of a name in scope of a module: of its own names, of the crates that can be named,
and of the prelude, the first that binds it in a namespace.  A name that is the whole path can also
be a macro of the prelude of macros. -/
def meaningInScope (view : View) (m : LocalId) (name : Name) (isWholePath : Bool) : Meaning :=
  let meaning := ((view.own.meaning m name).orElse (view.externMeaning name)).orElse
    (view.preludeMeaning name)
  if isWholePath then meaning.orElse (view.macroMeaning name) else meaning

/-- The meaning of the first name of an import before 2018: a name of the root, or a crate. -/
def meaningFromRoot (view : View) (name : Name) : Meaning :=
  (view.own.meaning .root name).orElse (view.externMeaning name)

/-! ### The first step -/

/-- The meaning of a path that stands for a module of the crate. -/
def ownModule (view : View) (m : LocalId) : Meaning :=
  .only .types (view.moduleBinding (view.tree.global m))

/-- What the start of a path means, and the names that are left. -/
def start (view : View) (m : LocalId) (path : Path) (use : PathUse) :
    Except Miss (Meaning × List Name) :=
  match path.anchor, path.segments with
  | .crate, names => .ok (view.ownModule .root, names)
  | .super levels, names =>
    match view.tree.climb? levels m with
    | some above => .ok (view.ownModule above, names)
    | none => .error .final
  | .absolute, names =>
    if view.own.edition.hasUniformPaths then
      match names with
      | [] => .error .final
      | first :: rest =>
        match view.own.externPrelude.get? first with
        | some root => .ok (.only .types (view.moduleBinding root), rest)
        | none => .error .waiting
    else .ok (view.ownModule .root, names)
  | .plain, [] => .error .final
  | .plain, first :: rest =>
    let meaning :=
      if use = .inImport ∧ view.own.edition.hasUniformPaths = false then view.meaningFromRoot first
      else view.meaningInScope m first rest.isEmpty
    if meaning.isEmpty then .error (.unbound first) else .ok (meaning, rest)

/-! ### The other steps -/

/-- Looks the names up one inside the other, starting from what the first part of the path means.
Names can only be inside of what that part means as a type. -/
def follow (view : View) (viewer : LocalId) (leavesCrate : Bool) : Meaning → List Name → Resolution
  | meaning, [] => { meaning, settled := true, leavesCrate }
  | meaning, name :: names =>
    match meaning.types with
    | none => .failed false
    | some host =>
      if host.isModuleOrEnum then
        match view.locate? host.path with
        | none => .failed true
        | some inside =>
          let isForeign := inside.crate != view.crate
          let inner := (view.meaning inside name).visible view.tree viewer
          -- A dependency is finished, so that what it lacks now it lacks for good.
          if inner.isEmpty then .failed isForeign
          else follow view viewer (leavesCrate || isForeign) inner names
      else .failed true

/-- What a path means as seen from the module `m`. -/
def resolve (view : View) (m : LocalId) (path : Path) (use : PathUse) : Resolution :=
  match view.start m path use with
  | .error miss => .failed miss.settled
  | .ok (meaning, names) => view.follow m false meaning names

/-- What is told about resolving a path. -/
def resolveLog (view : View) (m : LocalId) (path : Path) (use : PathUse) : Log :=
  match view.start m path use with
  | .error (.unbound name) =>
    #[⟨.trace, "first segment `" ++ name ++ "` of `" ++ path.text ++ "` is not bound yet"⟩]
  | _ => #[]

/-- What the text of a path means.  A text that is no path means nothing, for good. -/
def resolveText (view : View) (m : LocalId) (text : String) (use : PathUse) : Resolution :=
  match Path.parse? text with
  | some path => view.resolve m path use
  | none => .failed true

end View

end CrateScope
