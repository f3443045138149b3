import CrateScope.CrateMap

/-!
# The text of a crate map

A map is shown module by module, each under a line with its path and followed by an empty line.
Modules are sorted by that line and names alphabetically, so that the text does not depend on the
order of declarations.  A name is followed by the letters of the namespaces in which it is bound,
and each letter by `=` and a path where the name was imported from elsewhere.
-/

namespace CrateScope

namespace View

/-- Whether one text stands before another or is the same, by code points. -/
def textLe (a b : String) : Bool := decide (a ≤ b)

/-- How one namespace of a name is shown in the module at `home`. -/
def dumpTag (view : View) (home : ItemPath) (name : Name) (space : Namespace) (b : Binding) :
    String :=
  if b.path = home.child name then space.letter
  else space.letter ++ "=" ++ view.displayPath b.path

/-- The line of a name. -/
def dumpName (view : View) (home : ItemPath) (name : Name) (meaning : Meaning) : String :=
  let tags := meaning.toList.map fun (space, b) => view.dumpTag home name space b
  name ++ ": " ++ " ".intercalate tags ++ "\n"

/-- The lines of a module. -/
def dumpModule (view : View) (m : LocalId) : String :=
  let home := view.tree.pathOf m
  let names := (view.own.scope m).entries.mergeSort fun a b => textLe a.1 b.1
  let lines := (names.filter fun entry => !entry.2.isEmpty).map fun entry =>
    view.dumpName home entry.1 entry.2
  view.displayPath home ++ "\n" ++ String.join lines ++ "\n"

/-- The text of the map of a view. -/
def dump (view : View) : String :=
  let modules := view.tree.ids.mergeSort fun a b =>
    textLe (view.displayPath (view.tree.pathOf a)) (view.displayPath (view.tree.pathOf b))
  String.join (modules.map view.dumpModule)

end View

end CrateScope
