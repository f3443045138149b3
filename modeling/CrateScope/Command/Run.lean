import CrateScope.Command
import CrateScope.CrateMap.Dump
import CrateScope.Description.Decode
import CrateScope.Toml.Document
import CrateScope.Workspace

/-!
# Carrying commands out

A command reads the description of a graph, builds the maps of all its crates, and shows something
of them.

## Main definitions

* `CrateGraph.ofToml`, `Settings.ofToml` — what the text of a file describes.
* `Answer` — what a command shows.
* `Command.run` — a command on the text of its file.
-/

namespace CrateScope

/-- The graph that a text describes. -/
def CrateGraph.ofToml (text : String) : Except GraphError CrateGraph :=
  match Toml.Document.parse? text with
  | none => .error .malformed
  | some fields => CrateGraph.ofDescription .toml fields

/-- The settings that a text describes. -/
def Settings.ofToml (text : String) : Except GraphError Settings :=
  match Toml.Document.parse? text with
  | none => .error .malformed
  | some fields => Settings.ofDescription .toml fields

/-- What a command shows. -/
structure Answer where
  text : String
  /-- What is wrong with the crates that are shown. -/
  diagnostics : List Diagnostic := []

namespace Command

/-- The workspace of a file with all maps built, and what was told meanwhile.  A file that cannot be
read has no text. -/
def load (file : String) (text : Option String) (edition : Option Edition) :
    Except CommandError Workspace × Log :=
  match text with
  | none => (.error (.graph (.unreadable file)), #[])
  | some text =>
    match CrateGraph.ofToml text with
    | .error e => (.error (.graph e), #[])
    | .ok graph =>
      let counted := toString graph.size
      let log : Log := #[⟨.debug, "loaded crate graph with " ++ counted ++ " crate(s)"⟩]
      match Settings.ofToml text with
      | .error e => (.error (.graph e), log)
      | .ok settings =>
        let settings := { settings with edition := edition.getD settings.edition }
        let log := log.push ⟨.info, "loaded " ++ counted ++ " crate(s) from " ++ file⟩
        let built := ({ graph, settings } : Workspace).buildAll fun _ _ => false
        (match built.result with
          | .ok _ => .ok built.workspace
          | .error e => .error (.build e), log ++ built.log)

/-- The error of a crate that is not in the graph. -/
def unknownCrate (w : Workspace) (name : String) : CommandError :=
  .unknownCrate name (w.graph.crates.map CrateSource.name)

/-- How the map of a crate is shown. -/
def showMap (view : View) : String :=
  "// " ++ view.own.name ++ " (edition " ++ view.own.edition.text ++ ")\n" ++ view.dump

/-- Shows the map of one crate, or of all in the order of building. -/
def dumpAnswer (w : Workspace) (crate : Option String) : Except CommandError Answer := do
  let crates ←
    match crate with
    | some name =>
      match w.graph.idOf? name with
      | some id => .ok [id]
      | none => .error (unknownCrate w name)
    | none => w.graph.topologicalOrder.mapError .graph
  let views := crates.filterMap w.view?
  return { text := String.join (views.map showMap)
           diagnostics := views.flatMap fun view => view.own.diagnostics }

/-- How the meaning of a path is shown in a namespace. -/
def showBinding (view : View) (meaning : Meaning) (space : Namespace) : String :=
  match meaning.get space with
  | none => space.word ++ ": -\n"
  | some b =>
    space.word ++ ": " ++ view.displayPath b.path ++
      (if b.visibility.isPublic then " (pub)\n" else " (restricted)\n")

/-- Shows what a path means. -/
def resolveAnswer (w : Workspace) (crate module path : String) (use : PathUse) :
    Except CommandError (Answer × Log) := do
  match w.viewOfName? crate with
  | none => .error (unknownCrate w crate)
  | some view =>
    match view.moduleOfText? module with
    | none => .error (.unknownModule crate module)
    | some m =>
      match Path.parse? path with
      | none => .error (.invalidPath path)
      | some parsed =>
        let meaning := (view.resolve m parsed use).meaning
        let log := view.resolveLog m parsed use
        let log := if meaning.isEmpty then
            log.push ⟨.warn, "`" ++ path ++ "` does not resolve from `" ++ module ++ "` in `" ++
              crate ++ "`"⟩
          else log
        return ({ text := String.join (Namespace.all.map (showBinding view meaning)) }, log)

/-- The file that a command reads. -/
def file : Command → String
  | dump file .. => file
  | resolve file .. => file

/-- Carries a command out on the text of its file, if that could be read. -/
def run (command : Command) (text : Option String) : Except CommandError Answer × Log :=
  match command with
  | dump file crate edition =>
    match load file text edition with
    | (.error e, log) => (.error e, log)
    | (.ok w, log) => (dumpAnswer w crate, log)
  | resolve file crate module path use edition =>
    match load file text edition with
    | (.error e, log) => (.error e, log)
    | (.ok w, log) =>
      match resolveAnswer w crate module path use with
      | .error e => (.error e, log)
      | .ok (answer, told) => (.ok answer, log ++ told)

end Command

end CrateScope
