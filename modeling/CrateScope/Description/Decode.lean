import CrateScope.Description
import CrateScope.Graph
import CrateScope.Settings

/-!
# Reading descriptions

## Main definitions

* `Item.ofValue?`, `ModuleBody.ofValue?`, `CrateSource.ofValue?`, `Settings.ofValue?` — the parts of
  a description.
* `CrateGraph.ofDescription`, `Settings.ofDescription` — what the description of a whole graph says:
  its crates under `crate`, its settings under `config`.

A value that does not have the right form is refused as a whole, without saying why.
-/

namespace CrateScope

open Description

/-! ### Words -/

/-- The words for the ways to declare fields. -/
def Fields.words : List (String × Fields) :=
  [("record", .record), ("tuple", .tuple), ("unit", .unit)]

/-- The words for editions. -/
def Edition.words : List (String × Edition) :=
  [("2015", .e2015), ("2018", .e2018), ("2021", .e2021)]

/-- The kinds of items, as described. -/
inductive KindWord where
  | module
  | enum
  | struct
  | union
  | trait
  | typeAlias
  | function
  | const
  | static
  | macroRules
  deriving DecidableEq, Repr

/-- The words for the kinds of items.  The number of a kind is its position here. -/
def KindWord.words : List (String × KindWord) :=
  [("module", .module), ("enum", .enum), ("struct", .struct), ("union", .union),
   ("trait", .trait), ("type_alias", .typeAlias), ("function", .function), ("const", .const),
   ("static", .static), ("macro", .macroRules)]

/-- Reads the kind of an item. -/
def KindWord.ofValue? (d : Dialect) : Value → Option KindWord
  | .text word => KindWord.words.lookup word
  | .int n => if d.numberedKinds ∧ 0 ≤ n then KindWord.words[n.toNat]?.map Prod.snd else none
  | _ => none

/-- Reads an edition that may be missing. -/
def Edition.ofOptionalValue? (d : Dialect) : Value → Option (Option Edition)
  | .null => some none
  | value => (choice? d Edition.words value).map some

/-! ### Item trees -/

/-- Reads a visibility. -/
def WrittenVisibility.ofValue? (value : Value) : Option WrittenVisibility :=
  value.text?.bind WrittenVisibility.parse?

/-- Reads a variant of an enum. -/
def Variant.ofValue? (d : Dialect) (value : Value) : Option Variant := do
  let r ← record? d 2 value
  let name ← r.read "name" 0 (some none) Value.optionalText?
  let fields ← r.read "shape" 1 (some default) (choice? d Fields.words)
  return { name, fields }

/-- Reads a leaf of a `use` tree.  Its path cannot be missing. -/
def UseLeaf.ofValue? (d : Dialect) (value : Value) : Option UseLeaf := do
  let r ← record? d 4 value
  let path ← r.read "path" 0 none Value.text?
  let other ← r.read "alias" 1 (some none) Value.optionalText?
  let glob ← r.read "glob" 2 (some false) Value.bool?
  let visibility ← r.read "visibility" 3 (some default) WrittenVisibility.ofValue?
  return { path, alias? := other, glob, visibility }

/-- Reads an `extern crate`. -/
def ExternCrate.ofValue? (d : Dialect) (value : Value) : Option ExternCrate := do
  let r ← record? d 4 value
  let name ← r.read "name" 0 (some none) Value.optionalText?
  let other ← r.read "alias" 1 (some none) Value.optionalText?
  let macroUse ← r.read "macro_use" 2 (some false) Value.bool?
  let visibility ← r.read "visibility" 3 (some default) WrittenVisibility.ofValue?
  return { name, alias? := other, macroUse, visibility }

/-- Reads a list. -/
def listOf? {α : Type} (decode : Value → Option α) (value : Value) : Option (List α) :=
  value.list?.bind (List.mapM decode)

/-- What is looked up is among the fields. -/
theorem mem_of_lookup {name : String} {value : Value} {fields : List (String × Value)}
    (h : fields.lookup name = some value) : (name, value) ∈ fields := by
  induction fields with
  | nil => simp at h
  | cons field fields ih =>
    obtain ⟨name', value'⟩ := field
    rw [List.lookup_cons] at h
    by_cases hn : name = name'
    · subst hn
      simp only [beq_self_eq_true, Option.some.injEq] at h
      simp [h]
    · rw [beq_eq_false_iff_ne.2 hn] at h
      exact List.mem_cons_of_mem _ (ih h)

/-- An element of a list under a key of a table is smaller than the table. -/
theorem sizeOf_element_lt {name : String} {value : Value} {elements : List Value}
    {fields : List (String × Value)} (h : fields.lookup name = some (.list elements))
    (hv : value ∈ elements) : sizeOf value < sizeOf (Value.table fields) := by
  have h₁ := List.sizeOf_lt_of_mem hv
  have h₂ := List.sizeOf_lt_of_mem (mem_of_lookup h)
  simp only [Prod.mk.sizeOf_spec, Value.list.sizeOf_spec, Value.table.sizeOf_spec] at *
  omega

/-- Reads an item.  What belongs to its kind stands beside its name. -/
def Item.ofValue? (d : Dialect) (value : Value) : Option Item :=
  match value with
  | .table fields => do
    let r := Record.named fields
    let name ← r.read "name" 0 (some none) Value.optionalText?
    let visibility ← r.read "visibility" 1 (some default) WrittenVisibility.ofValue?
    let inside := d.insideItem
    let word ← (fields.lookup "kind").bind (KindWord.ofValue? d)
    match word with
    | .module =>
      let items ←
        match _h : fields.lookup "items" with
        | none => some []
        | some (.list elements) => elements.attach.mapM (fun e => Item.ofValue? inside e.1)
        | some _ => none
      let uses ← r.read "uses" 1 (some []) (listOf? (UseLeaf.ofValue? inside))
      let externCrates ← r.read "extern_crates" 2 (some []) (listOf? (ExternCrate.ofValue? inside))
      return { name, visibility, kind := .module { items, uses, externCrates } }
    | .enum =>
      let variants ← r.read "variants" 0 (some []) (listOf? (Variant.ofValue? inside))
      return { name, visibility, kind := .enum variants }
    | .struct =>
      let shape ← r.read "shape" 0 (some default) (choice? inside Fields.words)
      return { name, visibility, kind := .struct shape }
    | .macroRules =>
      let exported ← r.read "macro_export" 0 (some false) Value.bool?
      return { name, visibility, kind := .macroRules exported }
    | .union => return { name, visibility, kind := .union }
    | .trait => return { name, visibility, kind := .trait }
    | .typeAlias => return { name, visibility, kind := .typeAlias }
    | .function => return { name, visibility, kind := .function }
    | .const => return { name, visibility, kind := .const }
    | .static => return { name, visibility, kind := .static }
  | _ => none
termination_by value
decreasing_by exact sizeOf_element_lt _h e.2

/-- Reads the contents of a module. -/
def ModuleBody.ofValue? (d : Dialect) (value : Value) : Option ModuleBody := do
  let r ← record? d 3 value
  let items ← r.read "items" 0 (some []) (listOf? (Item.ofValue? d))
  let uses ← r.read "uses" 1 (some []) (listOf? (UseLeaf.ofValue? d))
  let externCrates ← r.read "extern_crates" 2 (some []) (listOf? (ExternCrate.ofValue? d))
  return { items, uses, externCrates }

/-! ### Graphs and settings -/

/-- Reads a crate.  Its name cannot be missing. -/
def CrateSource.ofValue? (d : Dialect) (value : Value) : Option CrateSource := do
  let r ← record? d 4 value
  let name ← r.read "name" 0 none Value.text?
  let edition ← r.read "edition" 1 (some none) (Edition.ofOptionalValue? d)
  let root ← r.read "root" 2 (some {}) (ModuleBody.ofValue? d)
  let dependencies ← r.read "dependencies" 3 (some []) (listOf? Value.text?)
  return { name, edition, root, dependencies }

/-- Reads the settings of a build. -/
def Settings.ofValue? (d : Dialect) (value : Value) : Option Settings := do
  let r ← record? d 3 value
  let usual : Settings := {}
  let edition ← r.read "edition" 0 (some usual.edition) (choice? d Edition.words)
  let globLimit ← r.read "glob_recursion_limit" 1 (some usual.globLimit) Value.count?
  let prelude ← r.read "prelude" 2 (some usual.prelude) Value.optionalText?
  return { edition, globLimit, prelude }

/-- The graph that a description describes. -/
def CrateGraph.ofDescription (d : Dialect) (fields : List (String × Value)) :
    Except GraphError CrateGraph :=
  match (Record.named fields).read "crate" 0 (some []) (listOf? (CrateSource.ofValue? d)) with
  | none => .error .malformed
  | some crates => ofCrates crates

/-- The settings that a description has beside its graph. -/
def Settings.ofDescription (d : Dialect) (fields : List (String × Value)) :
    Except GraphError Settings :=
  match (Record.named fields).read "config" 0 (some {}) (Settings.ofValue? d) with
  | none => .error .malformed
  | some settings => .ok settings

end CrateScope
