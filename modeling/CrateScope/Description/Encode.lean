import CrateScope.Description.Decode

/-!
# Writing descriptions

The description of a crate or of settings, with every field that is known for it.  Reading the
description of a crate gives the crate back.

## Main definitions

* `ModuleBody.toValue`, `Item.toValue`, `CrateSource.toValue`, `Settings.toValue`.
-/

namespace CrateScope

open Description

/-- A text that may be missing. -/
def optionalText (text : Option String) : Value :=
  match text with
  | none => .null
  | some text => .text text

/-- The word for a way to declare fields. -/
def Fields.word : Fields → String
  | record => "record"
  | tuple => "tuple"
  | unit => "unit"

/-- The description of a visibility. -/
def WrittenVisibility.toValue (visibility : WrittenVisibility) : Value := .text visibility.text

/-- The description of a variant. -/
def Variant.toValue (variant : Variant) : Value :=
  .table [("name", optionalText variant.name), ("shape", .text variant.fields.word)]

/-- The description of a leaf of a `use` tree. -/
def UseLeaf.toValue (leaf : UseLeaf) : Value :=
  .table [("path", .text leaf.path), ("alias", optionalText leaf.alias?), ("glob", .bool leaf.glob),
    ("visibility", leaf.visibility.toValue)]

/-- The description of an `extern crate`. -/
def ExternCrate.toValue (declaration : ExternCrate) : Value :=
  .table [("name", optionalText declaration.name), ("alias", optionalText declaration.alias?),
    ("macro_use", .bool declaration.macroUse), ("visibility", declaration.visibility.toValue)]

/-- The word that says which kind an item is of. -/
def ItemKind.word : ItemKind → String
  | module _ => "module"
  | enum _ => "enum"
  | struct _ => "struct"
  | union => "union"
  | trait => "trait"
  | typeAlias => "type_alias"
  | function => "function"
  | const => "const"
  | static => "static"
  | macroRules _ => "macro"

mutual

/-- The fields that describe the contents of a module. -/
def ModuleBody.fields : ModuleBody → List (String × Value)
  | ⟨items, uses, externCrates⟩ =>
    [("items", .list (Item.toValues items)), ("uses", .list (uses.map UseLeaf.toValue)),
      ("extern_crates", .list (externCrates.map ExternCrate.toValue))]

/-- The descriptions of some items. -/
def Item.toValues : List Item → List Value
  | [] => []
  | item :: items => item.toValue :: Item.toValues items

/-- The description of an item. -/
def Item.toValue : Item → Value
  | ⟨name, visibility, kind⟩ =>
    .table ([("name", optionalText name), ("visibility", visibility.toValue),
      ("kind", .text kind.word)] ++ kind.fields)

/-- The fields that belong to the kind of an item. -/
def ItemKind.fields : ItemKind → List (String × Value)
  | .module body => body.fields
  | .enum variants => [("variants", .list (variants.map Variant.toValue))]
  | .struct shape => [("shape", .text shape.word)]
  | .macroRules exported => [("macro_export", .bool exported)]
  | _ => []

end

/-- The description of the contents of a module. -/
def ModuleBody.toValue (body : ModuleBody) : Value := .table body.fields

/-- The description of a crate. -/
def CrateSource.toValue (crate : CrateSource) : Value :=
  .table [("name", .text crate.name), ("edition", optionalText (crate.edition.map Edition.text)),
    ("root", crate.root.toValue), ("dependencies", .list (crate.dependencies.map Value.text))]

/-- The description of settings. -/
def Settings.toValue (settings : Settings) : Value :=
  .table [("edition", .text settings.edition.text),
    ("glob_recursion_limit", .int settings.globLimit),
    ("prelude", optionalText settings.prelude)]

end CrateScope
