import CrateScope.Proofs.Permanence
import CrateScope.Proofs.Privacy

/-!
# How finished views hang together

A view shows the finished maps of everything that its crate reaches by dependencies.  So whatever
map a dependency shows the crate shows as well, and it is the same one: a path that names a module
in the view of a dependency names it in the view of the crate.

In every finished view the modules are where their paths say, so that what a dependency shows can be
relied on there.

## Main definitions

* `View.Linked` — a view shows exactly what its crate reaches.
* `View.Shows` — one view shows every map that another one shows.
* `View.Upholds` — the same, where more can be bound in the maps than before.
* `View.Has` — a module is in one of the maps that a view shows.
* `View.Solid` — all maps that a view shows are orderly: their modules are where their paths say.

## Main results

* `Workspace.Run.linked` — finished views are linked.
* `Workspace.Run.shows` — what a dependency shows the crate shows.
* `Workspace.Run.solid` — linked views are solid.
-/

namespace CrateScope

open Relation

/-! ### The maps that a view shows -/

namespace View

variable {view sub : View} {g : CrateGraph} {finished finished' : CrateId → Option CrateMap}

theorem mapOf?_own (view : View) : view.mapOf? view.crate = some view.own := if_pos rfl

theorem mapOf?_of_ne {crate : CrateId} (h : crate ≠ view.crate) :
    view.mapOf? crate = view.dependencies.get? crate := if_neg h

theorem moduleBinding_of_mapOf? {m : ModuleId} {map : CrateMap}
    (h : view.mapOf? m.crate = some map) :
    view.moduleBinding m = map.moduleBinding m.index .everywhere := by
  unfold moduleBinding
  rw [h]

/-- What a name means in another crate is bound in the map that the view shows of it. -/
theorem exists_map_of_meaning {m : ModuleId} (hm : m.crate ≠ view.crate) {name : Name}
    {ns : Namespace} {b : Binding} (hb : (view.meaning m name).get ns = some b) :
    ∃ map, view.dependencies.get? m.crate = some map ∧
      map.binding? ⟨m.index, name, ns⟩ = some b := by
  unfold meaning at hb
  rw [mapOf?_of_ne hm] at hb
  split at hb
  · next map hmap => exact ⟨map, hmap, hb⟩
  · rw [Meaning.get_empty] at hb
    cases hb

/-- A view shows the finished maps of exactly the crates that its crate reaches by dependencies, and
its crate is none of these. -/
structure Linked (g : CrateGraph) (finished : CrateId → Option CrateMap) (view : View) : Prop where
  acyclic : ¬ TransGen g.DependsOn view.crate view.crate
  built : ∀ d, TransGen g.DependsOn view.crate d → (finished d).isSome
  shown : ∀ d map, view.dependencies.get? d = some map ↔
    TransGen g.DependsOn view.crate d ∧ finished d = some map

theorem Linked.mono (h : view.Linked g finished)
    (hmore : ∀ d map, finished d = some map → finished' d = some map) :
    view.Linked g finished' where
  acyclic := h.acyclic
  built d hd := by
    obtain ⟨map, hmap⟩ := Option.isSome_iff_exists.1 (h.built d hd)
    rw [hmore d map hmap]
    rfl
  shown d map := by
    rw [h.shown]
    refine and_congr_right fun hd => ⟨hmore d map, fun hmap' => ?_⟩
    -- What was finished before is the same map now.
    obtain ⟨map₀, hmap₀⟩ := Option.isSome_iff_exists.1 (h.built d hd)
    rw [hmap₀, Option.some.inj ((hmore d map₀ hmap₀).symm.trans hmap')]

theorem Linked.congr (h : view.Linked g finished) (hcrate : sub.crate = view.crate)
    (hdependencies : sub.dependencies = view.dependencies) : sub.Linked g finished where
  acyclic := by rw [hcrate]; exact h.acyclic
  built := by rw [hcrate]; exact h.built
  shown := by rw [hcrate, hdependencies]; exact h.shown

theorem Linked.ne_crate (h : view.Linked g finished) {d : CrateId}
    (hd : TransGen g.DependsOn view.crate d) : d ≠ view.crate := by
  rintro rfl
  exact h.acyclic hd

/-- A finished crate that is reached is shown. -/
theorem Linked.mapOf? (h : view.Linked g finished) {d : CrateId} {map : CrateMap}
    (hd : TransGen g.DependsOn view.crate d) (hmap : finished d = some map) :
    view.mapOf? d = some map := by
  rw [mapOf?_of_ne (h.ne_crate hd)]
  exact (h.shown d map).2 ⟨hd, hmap⟩

/-- A view shows every map that another one shows. -/
def Shows (view sub : View) : Prop :=
  ∀ crate map, sub.mapOf? crate = some map → view.mapOf? crate = some map

/-- The view of a crate shows what the views of the crates show that it reaches. -/
theorem Linked.shows (h : view.Linked g finished) (hsub : sub.Linked g finished)
    (hreached : TransGen g.DependsOn view.crate sub.crate)
    (hfinished : finished sub.crate = some sub.own) : view.Shows sub := by
  intro crate map hmap
  -- The one map that a view shows beside those of its dependencies is its own.
  by_cases hown : crate = sub.crate
  · rw [hown, mapOf?_own] at hmap
    cases hmap
    rw [hown]
    exact h.mapOf? hreached hfinished
  · rw [mapOf?_of_ne hown, hsub.shown] at hmap
    exact h.mapOf? (hreached.trans hmap.1) hmap.2

/-- A module that is found in a map that a view shows is found in the view. -/
theorem locate?_eq_some_iff {path : ItemPath} {m : ModuleId} :
    view.locate? path = some m ↔ m.crate = path.crate ∧ ∃ map, view.mapOf? path.crate = some map ∧
      map.tree.descend? .root path.segments = some m.index := by
  simp only [locate?, Option.bind_eq_bind, Option.bind_eq_some_iff, Option.pure_def,
    Option.some.injEq]
  constructor
  · rintro ⟨map, hmap, index, hindex, rfl⟩
    exact ⟨rfl, map, hmap, hindex⟩
  · rintro ⟨hcrate, map, hmap, hindex⟩
    refine ⟨map, hmap, m.index, hindex, ?_⟩
    rw [← hcrate]

/-- A view upholds another one if it shows every map that this one shows, with the same modules and
with everything that is bound there, be it that more is bound. -/
def Upholds (view sub : View) : Prop :=
  ∀ crate map, sub.mapOf? crate = some map → ∃ map', view.mapOf? crate = some map' ∧
    map'.tree = map.tree ∧ ∀ slot b, map.binding? slot = some b → map'.binding? slot = some b

theorem Shows.upholds (h : view.Shows sub) : view.Upholds sub :=
  fun crate map hmap => ⟨map, h crate map hmap, rfl, fun _ _ hb => hb⟩

theorem Upholds.locate? (h : view.Upholds sub) {path : ItemPath} {m : ModuleId}
    (hm : sub.locate? path = some m) : view.locate? path = some m := by
  rw [locate?_eq_some_iff] at hm ⊢
  obtain ⟨hcrate, map, hmap, hindex⟩ := hm
  obtain ⟨map', hmap', htree, -⟩ := h path.crate map hmap
  exact ⟨hcrate, map', hmap', by rwa [htree]⟩

end View

/-! ### Modules that are where their paths say -/

/-- The modules of a map are where their paths say, and each of them has a scope. -/
structure CrateMap.Orderly (map : CrateMap) : Prop where
  regular : map.tree.Regular
  sized : map.scopes.size = map.tree.size

/-- What is bound is bound in a module. -/
theorem CrateMap.Orderly.mem_tree {map : CrateMap} (h : map.Orderly) {slot : Slot} {b : Binding}
    (hb : map.binding? slot = some b) : slot.module.index < map.tree.size := by
  rw [← h.sized]
  exact CrateMap.lt_size_of_binding? hb

namespace View

variable {view sub : View} {m : ModuleId}

/-- A module is in one of the maps that a view shows. -/
def Has (view : View) (m : ModuleId) : Prop :=
  ∃ map, view.mapOf? m.crate = some map ∧ m.index.index < map.tree.size

/-- Which modules a view has depends on the trees only. -/
theorem Upholds.has (h : view.Upholds sub) (hm : sub.Has m) : view.Has m := by
  obtain ⟨map, hmap, hlt⟩ := hm
  obtain ⟨map', hmap', htree, -⟩ := h m.crate map hmap
  exact ⟨map', hmap', by rwa [htree]⟩

theorem has_global {a : LocalId} : view.Has (view.tree.global a) ↔ a.index < view.tree.size := by
  unfold Has
  rw [show (view.tree.global a).crate = view.crate from rfl, mapOf?_own]
  constructor
  · rintro ⟨map, hmap, hlt⟩
    cases hmap
    exact hlt
  · exact fun hlt => ⟨_, rfl, hlt⟩

/-- All maps that a view shows are orderly, each under the number of its own crate. -/
def Solid (view : View) : Prop :=
  ∀ crate map, view.mapOf? crate = some map → map.crate = crate ∧ map.Orderly

namespace Solid

/-- What is found at a path is a module with this path. -/
theorem of_locate? (h : view.Solid) {path : ItemPath} (hm : view.locate? path = some m) :
    ∃ map, view.mapOf? m.crate = some map ∧ m.index.index < map.tree.size ∧
      map.tree.pathOf m.index = path := by
  obtain ⟨hcrate, map, hmap, hindex⟩ := locate?_eq_some_iff.1 hm
  obtain ⟨hnumber, horderly⟩ := h path.crate map hmap
  obtain ⟨hlt, hpath⟩ := horderly.regular.pathOf_descend? hindex
  refine ⟨map, by rw [hcrate]; exact hmap, hlt, ?_⟩
  rw [hpath, show map.tree.crate = path.crate from hnumber]

theorem has_of_locate? (h : view.Solid) {path : ItemPath} (hm : view.locate? path = some m) :
    view.Has m := by
  obtain ⟨map, hmap, hlt, -⟩ := h.of_locate? hm
  exact ⟨map, hmap, hlt⟩

/-- A module is found at the path by which it is known. -/
theorem locate?_moduleBinding (h : view.Solid) (hm : view.Has m) :
    view.locate? (view.moduleBinding m).path = some m := by
  obtain ⟨map, hmap, hlt⟩ := hm
  obtain ⟨hnumber, horderly⟩ := h m.crate map hmap
  have hpath : (view.moduleBinding m).path = map.tree.pathOf m.index := by
    rw [moduleBinding_of_mapOf? hmap]
    rfl
  have hcrate : (map.tree.pathOf m.index).crate = m.crate :=
    (horderly.regular.crate_pathOf m.index).trans hnumber
  rw [hpath, locate?_eq_some_iff, hcrate]
  exact ⟨rfl, map, hmap, horderly.regular.descend?_pathOf m.index hlt⟩

end Solid

/-- The crates that a view can name are all shown. -/
theorem Linked.has_root {g : CrateGraph} {finished : CrateId → Option CrateMap}
    (h : view.Linked g finished) {root : ModuleId} (hroot : g.Nameable view.crate root) :
    view.Has root := by
  rcases hroot with rfl | ⟨d, hd, rfl⟩
  · exact ⟨view.own, mapOf?_own view, view.tree.size_pos⟩
  · obtain ⟨map, hmap⟩ := Option.isSome_iff_exists.1 (h.built d (.single hd))
    exact ⟨map, h.mapOf? (.single hd) hmap, map.tree.size_pos⟩

/-- The map of a view is orderly, and what paths start from respects privacy. -/
structure Orderly (view : View) : Prop where
  own : view.own.Orderly
  guarded : view.Guarded

end View

/-! ### The views of a build -/

section Build

variable {g : CrateGraph} {id : CrateId} {crate : CrateSource} {settings : Settings}
  {finished : CrateId → Option CrateMap} {start c : Collection} {imports : List Import}

/-- A build opens with a view that shows what the crate reaches. -/
theorem linked_of_openBuild (h : openBuild g id crate finished settings = .ok (start, imports)) :
    start.view.Linked g finished := by
  have hcrate : start.view.crate = id := (opened_of_openBuild h).crate
  obtain ⟨maps, names, prelude, log, hmaps, -, -, rfl, -⟩ := openBuild_ok h
  obtain ⟨all, hall, hbuilt, hget⟩ := get?_dependencyMaps hmaps
  refine ⟨?_, ?_, ?_⟩
  · rw [hcrate]
    exact CrateGraph.not_transGen_self hall
  · rw [hcrate]
    exact fun d hd => hbuilt d ((CrateGraph.mem_transitiveDependencies hall).2 hd)
  · intro d map
    rw [hcrate, ← CrateGraph.mem_transitiveDependencies hall]
    change maps.get? d = some map ↔ _
    rw [hget]
    split <;> simp [*]

namespace Collection

variable {limit : Nat} {past : List Collection} {hand : Option SettledImport}

theorem Course.linked (hopened : Opened id imports start) (hlinked : start.view.Linked g finished)
    (h : Course limit imports start past hand c) : c.view.Linked g finished := by
  have hkeeps := (h.keeps hopened.coherent).1
  exact hlinked.congr (congrArg ModuleTree.crate hkeeps.tree) hkeeps.dependencies

theorem Course.orderly (hopened : Opened id imports start)
    (h : Course limit imports start past hand c) : c.view.Orderly := by
  obtain ⟨hguarded, htree⟩ := h.guarded hopened
  have hregular : c.tree.Regular := by
    rw [htree]
    exact hopened.regular
  exact ⟨⟨hregular, (h.coherent hopened.coherent).sized⟩, hguarded⟩

theorem Course.crate_eq (hopened : Opened id imports start)
    (h : Course limit imports start past hand c) : c.view.crate = id := by
  rw [← hopened.crate]
  exact congrArg ModuleTree.crate (h.keeps hopened.coherent).1.tree

end Collection

end Build

/-! ### The views of a workspace -/

namespace Workspace

variable {graph : CrateGraph} {settings : Settings} {w : Workspace} {id : CrateId} {view : View}

namespace Run

/-- A finished view is that of its crate, and orderly. -/
theorem orderly (h : Run graph settings w) (hview : w.view? id = some view) :
    view.crate = id ∧ view.Orderly := by
  refine h.view_invariant (P := fun id view => view.crate = id ∧ view.Orderly) ?_ id view hview
  intro w _ _ id crate start imports past c _ hopen hcourse
  have hopened := opened_of_openBuild hopen
  exact ⟨hcourse.crate_eq hopened, hcourse.orderly hopened⟩

/-- Finished views are linked to each other. -/
theorem linked (h : Run graph settings w) (hview : w.view? id = some view) :
    view.Linked graph w.map? := by
  refine h.invariant (P := fun w => ∀ id view, w.view? id = some view →
    view.Linked graph w.map?) ?_ ?_ id view hview
  · intro id view hview
    cases hview
  · intro w hw isCancelled crate ih id view hview
    have hbefore : view.Linked graph w.map? := by
      rcases view?_build_cases hview with hview | ⟨built, hbuilt, rfl⟩
      · exact ih id view hview
      · obtain ⟨hgraph, hsettings⟩ := hw.given
        rw [hgraph, hsettings] at hbuilt
        obtain ⟨crate, start, imports, past, outcome, -, hopen, hcourse, rfl⟩ :=
          course_of_buildView hbuilt
        rw [view_closeBuild]
        exact hcourse.linked (opened_of_openBuild hopen) (linked_of_openBuild hopen)
    exact hbefore.mono fun d map => map?_build isCancelled crate

/-- Each map that a linked view shows is that of a finished view, and all that this one shows is
shown as well. -/
theorem shows (h : Run graph settings w) {top : View} (htop : top.Linked graph w.map?) {d : CrateId}
    {map : CrateMap} (hmap : top.dependencies.get? d = some map) :
    ∃ sub, w.view? d = some sub ∧ sub.own = map ∧ top.Shows sub := by
  obtain ⟨hreached, hfinished⟩ := (htop.shown d map).1 hmap
  obtain ⟨sub, hsub, hown⟩ := Option.map_eq_some_iff.1 hfinished
  obtain ⟨hcrate, -⟩ := h.orderly hsub
  refine ⟨sub, hsub, hown, htop.shows (h.linked hsub) ?_ ?_⟩
  · rw [hcrate]
    exact hreached
  · rw [hcrate, hown]
    exact hfinished

/-- What a name means in another crate is bound there in a finished view, which shows nothing that
is not shown here. -/
theorem exists_view_of_meaning (h : Run graph settings w) {top : View}
    (htop : top.Linked graph w.map?) {m : ModuleId} (hm : m.crate ≠ top.crate) {name : Name}
    {ns : Namespace} {b : Binding} (hb : (top.meaning m name).get ns = some b) :
    ∃ sub, w.view? m.crate = some sub ∧ top.Shows sub ∧
      sub.own.binding? ⟨m.index, name, ns⟩ = some b := by
  obtain ⟨map, hmap, hbound⟩ := View.exists_map_of_meaning hm hb
  obtain ⟨sub, hsub, rfl, hshows⟩ := h.shows htop hmap
  exact ⟨sub, hsub, hshows, hbound⟩

/-- Together with an orderly map of its own a linked view shows orderly maps only. -/
theorem solid (h : Run graph settings w) {top : View} (htop : top.Linked graph w.map?)
    (hown : top.own.Orderly) : top.Solid := by
  intro d map hmap
  by_cases hd : d = top.crate
  · rw [hd, View.mapOf?_own] at hmap
    cases hmap
    exact ⟨hd.symm, hown⟩
  · rw [View.mapOf?_of_ne hd] at hmap
    obtain ⟨sub, hsub, rfl, -⟩ := h.shows htop hmap
    obtain ⟨hcrate, horderly⟩ := h.orderly hsub
    exact ⟨hcrate, horderly.own⟩

end Run

end Workspace

end CrateScope
