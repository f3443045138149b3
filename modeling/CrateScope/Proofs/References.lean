import CrateScope.Proofs.Heredity

/-!
# No dangling references

A binding names its item by a path, and the item can be of any crate that the crate of the binding
reaches.  Modules are named by numbers in several places.  All of these references lead somewhere:
each path to a module or a declared item in one of the maps that the view shows, each number to a
module there.

That this is so for the bindings is a matter of inheritance.  The declarations refer to themselves,
they stay where they are whatever is imported, and the dependencies were finished before.

## Main definitions

* `View.Refers` — what a binding refers to is there.
* `View.Intact` — all that a view binds or knows refers to something.
* `Collection.InRange` — the numbers that a build goes by are those of modules.

## Main results

* `no_dangling_references` — in every run of a workspace all finished views are intact, and so is
  every state of a build.
-/

namespace CrateScope

namespace View

variable {view sub : View} {ns : Namespace} {b : Binding} {m : ModuleId}

/-! ### References -/

/-- What a binding refers to is there.  The path of a module or enum leads to a module that has this
very path.  Any other path leads to a slot in the same namespace, in a module of the crate of the
path, which is bound to an item of this path. -/
structure Refers (view : View) (ns : Namespace) (b : Binding) : Prop where
  module : b.isModuleOrEnum = true → ∃ m map, view.locate? b.path = some m ∧
    view.mapOf? m.crate = some map ∧ m.index.index < map.tree.size ∧
    map.tree.pathOf m.index = b.path
  item : b.isModuleOrEnum = false → ∃ map d, view.mapOf? b.path.crate = some map ∧
    map.bindingAt? ns b.path = some d ∧ d.path = b.path

/-- The crate of what a binding refers to is shown. -/
theorem Refers.exists_map (h : view.Refers ns b) : ∃ map, view.mapOf? b.path.crate = some map := by
  cases hkind : b.isModuleOrEnum with
  | true =>
    obtain ⟨m, map, hlocate, hmap, -⟩ := h.module hkind
    rw [(locate?_eq_some_iff.1 hlocate).1] at hmap
    exact ⟨map, hmap⟩
  | false =>
    obtain ⟨map, d, hmap, -⟩ := h.item hkind
    exact ⟨map, hmap⟩

/-- Handing on changes the visibility only. -/
theorem Refers.handedOn (h : view.Refers ns b) (t : ModuleTree) (visibility : Visibility) :
    view.Refers ns (b.handedOn t visibility) :=
  ⟨h.module, h.item⟩

theorem Upholds.bindingAt? {map map' : CrateMap} (htree : map'.tree = map.tree)
    (hbound : ∀ slot b, map.binding? slot = some b → map'.binding? slot = some b)
    {path : ItemPath} (h : map.bindingAt? ns path = some b) : map'.bindingAt? ns path = some b := by
  simp only [CrateMap.bindingAt?, Option.bind_eq_bind, Option.bind_eq_some_iff] at h ⊢
  obtain ⟨name, hname, parent, hparent, m, hm, hb⟩ := h
  exact ⟨name, hname, parent, hparent, m, by rwa [htree], hbound _ b hb⟩

/-- What is there in one view is there in every view that upholds it. -/
theorem Refers.upheld (h : sub.Refers ns b) (hupholds : view.Upholds sub) : view.Refers ns b where
  module hkind := by
    obtain ⟨m, map, hlocate, hmap, hlt, hpath⟩ := h.module hkind
    obtain ⟨map', hmap', htree, -⟩ := hupholds m.crate map hmap
    rw [← htree] at hlt hpath
    exact ⟨m, map', hupholds.locate? hlocate, hmap', hlt, hpath⟩
  item hkind := by
    obtain ⟨map, d, hmap, hd, hpath⟩ := h.item hkind
    obtain ⟨map', hmap', htree, hbound⟩ := hupholds b.path.crate map hmap
    exact ⟨map', d, hmap', Upholds.bindingAt? htree hbound hd, hpath⟩

theorem isModuleOrEnum_moduleBinding (view : View) (m : ModuleId) :
    (view.moduleBinding m).isModuleOrEnum = true := by
  unfold moduleBinding
  split <;> rfl

/-- The binding by which a module is known refers to it. -/
theorem Solid.refers_moduleBinding (h : view.Solid) (hm : view.Has m) :
    view.Refers ns (view.moduleBinding m) where
  module _ := by
    have hlocate := h.locate?_moduleBinding hm
    exact ⟨m, (h.of_locate? hlocate).imp fun map hmap => ⟨hlocate, hmap⟩⟩
  item hkind := by
    rw [isModuleOrEnum_moduleBinding] at hkind
    cases hkind

/-- A declaration refers to the slot in which it is, or to the module that was made for it. -/
theorem Solid.refers_declared (h : view.Solid) {slot : Slot} (hb : view.own.binding? slot = some b)
    (hfits : b.Fits view.tree slot) : view.Refers slot.space b where
  module hkind := by
    -- The module that was made for the declaration has the same path.
    obtain ⟨-, hchild⟩ := hfits.inside hkind
    obtain ⟨child, hchild⟩ := Option.isSome_iff_exists.1 hchild
    obtain ⟨-, horderly⟩ := h view.crate view.own (mapOf?_own view)
    have hhas : view.Has (view.tree.global child) :=
      has_global.2 (horderly.regular.inside _ _ _ hchild)
    have hpath : (view.moduleBinding (view.tree.global child)).path = b.path := by
      rw [moduleBinding_of_mapOf? (mapOf?_own view), hfits.path]
      exact horderly.regular.pathOf_child _ _ _ hchild
    have hrefers : view.Refers .types (view.moduleBinding (view.tree.global child)) :=
      h.refers_moduleBinding hhas
    rw [← hpath]
    exact hrefers.module (isModuleOrEnum_moduleBinding view _)
  item _ := by
    obtain ⟨-, horderly⟩ := h view.crate view.own (mapOf?_own view)
    have hcrate : b.path.crate = view.crate := by
      rw [hfits.path]
      exact horderly.regular.crate_pathOf slot.module
    refine ⟨view.own, b, by rw [hcrate, mapOf?_own], ?_, rfl⟩
    exact hfits.bindingAt? horderly.regular (horderly.mem_tree hb) hb

/-! ### Views without dangling references -/

/-- All that a view binds or knows refers to something. -/
structure Intact (g : CrateGraph) (view : View) : Prop where
  /-- What is bound is of the crate itself or of one of the dependencies that the view shows. -/
  known : ∀ ns b, view.Stores ns b →
    b.path.crate = view.crate ∨ (view.dependencies.get? b.path.crate).isSome
  /-- So its path is always shown with the name of the crate. -/
  displayed : ∀ ns b, view.Stores ns b → ∃ map, view.mapOf? b.path.crate = some map ∧
    view.displayPath b.path
      = b.path.textFrom (if b.path.crate = view.crate then "crate" else map.name)
  refers : ∀ ns b, view.Stores ns b → view.Refers ns b
  scopes : ∀ ns b scope, view.Stores ns b → b.visibility = .within scope → view.Has scope
  /-- Only the crate itself and its direct dependencies can be named. -/
  crates : ∀ name root, view.own.externPrelude.get? name = some root →
    g.Nameable view.crate root ∧ view.Has root
  prelude : ∀ p, view.own.prelude = some p → view.Has p
  /-- No lookup comes to a module or enum that is missing. -/
  lookups : ∀ m, m.index < view.tree.size → ∀ path use meaning names,
    view.start m path use = .ok (meaning, names) →
    ∀ missing, view.followOr missing m false meaning names = view.follow m false meaning names

theorem displayPath_of_mapOf? {path : ItemPath} {map : CrateMap}
    (h : view.mapOf? path.crate = some map) :
    view.displayPath path
      = path.textFrom (if path.crate = view.crate then "crate" else map.name) := by
  unfold displayPath
  rw [h]
  split <;> rfl

/-- The module to which a visibility is restricted is there, wherever it counts. -/
theorem has_of_isVisibleFrom {viewer : LocalId} (hviewer : viewer.index < view.tree.size)
    {visibility : Visibility} (h : visibility.isVisibleFrom view.tree viewer = true)
    {scope : ModuleId} (hscope : visibility = .within scope) : view.Has scope := by
  rcases Visibility.isVisibleFrom_iff.1 h with heq | ⟨a, ha, heq⟩
  · cases hscope.symm.trans heq
  · cases hscope.symm.trans heq
    exact has_global.2 (ModuleTree.lt_size_of_mem_ancestors hviewer ha)

/-- A view is intact if it upholds one in which all that it bears is there, and if the crates and
the prelude that it knows are there as well. -/
theorem Bears.intact {g : CrateGraph}
    (h : view.Bears sub.Refers (fun m => m.index < view.tree.size) (g.Nameable view.crate))
    (hupholds : view.Upholds sub) (horderly : view.Orderly)
    (hroots : ∀ root, g.Nameable view.crate root → view.Has root)
    (hprelude : ∀ p, view.own.prelude = some p → view.Has p) : view.Intact g where
  known ns b hb := by
    obtain ⟨map, hmap⟩ := ((h.stores hb).upheld hupholds).exists_map
    refine or_iff_not_imp_left.2 fun hne => ?_
    rw [← mapOf?_of_ne hne, hmap]
    rfl
  displayed ns b hb := by
    obtain ⟨map, hmap⟩ := ((h.stores hb).upheld hupholds).exists_map
    exact ⟨map, hmap, displayPath_of_mapOf? hmap⟩
  refers ns b hb := (h.stores hb).upheld hupholds
  scopes ns b scope hb hscope := by
    rcases hb with ⟨m, name, hb⟩ | ⟨-, name, hb⟩
    · have hvisible := horderly.guarded.bindings _ b hb
      exact has_of_isVisibleFrom (horderly.own.mem_tree hb) hvisible hscope
    · cases hscope.symm.trans (horderly.guarded.macros name b hb)
  crates name root hroot := ⟨h.crates name root hroot, hroots root (h.crates name root hroot)⟩
  prelude := hprelude
  lookups m hm path use meaning names hstart missing := by
    refine followOr_eq_follow (fun host hfinds hkind => ?_) missing
      fun ns b hb => .start (start_of_start hstart hb)
    obtain ⟨inside, map, hlocate, -⟩ := ((h.finds hm hfinds).upheld hupholds).module hkind
    rw [hlocate]
    rfl

end View

/-! ### The numbers that a build goes by -/

namespace Collection

/-- The numbers that a build goes by are those of modules. -/
structure InRange (imports : List Import) (c : Collection) : Prop where
  /-- There is a scope for each module of the tree. -/
  scopes : c.map.scopes.size = c.tree.size
  bound : ∀ slot b, c.map.binding? slot = some b → slot.module.index < c.tree.size
  /-- Imports stand in modules, and are restricted to modules. -/
  imports : ∀ i ∈ imports, i.module.index < c.tree.size ∧
    ∀ scope, i.visibility = .within scope → c.view.Has scope
  /-- So do the globs to which names are handed on, and so are they. -/
  importers : ∀ s e, e ∈ c.edgesFrom s → e.importer.index < c.tree.size ∧
    ∀ scope, e.visibility = .within scope → c.view.Has scope
  located : ∀ path m, c.view.locate? path = some m → c.view.Has m
  inside : ∀ m name child, c.tree.child? m name = some child → child.index < c.tree.size
  around : ∀ m a, m.index < c.tree.size → a ∈ c.tree.ancestors m → a.index < c.tree.size
  /-- The crates that `extern crate` can name are shown. -/
  crates : ∀ name root, c.directCrates.get? name = some root → c.view.Has root

end Collection

/-! ### Builds -/

section Build

variable {graph : CrateGraph} {settings : Settings} {w : Workspace} {id : CrateId}
  {crate : CrateSource} {start c : Collection} {imports : List Import} {limit : Nat}
  {past : List Collection} {hand : Option SettledImport}

/-- What is there before any import is there in every state of the build. -/
theorem Collection.Course.upholds (hopened : start.Opened id imports)
    (h : Course limit imports start past hand c) : c.view.Upholds start.view := by
  obtain ⟨hkeeps, -⟩ := h.keeps hopened.coherent
  have hcrate : c.view.crate = start.view.crate := congrArg ModuleTree.crate hkeeps.tree
  intro d map hmap
  by_cases hd : d = start.view.crate
  · rw [hd, View.mapOf?_own] at hmap
    cases hmap
    refine ⟨c.view.own, ?_, hkeeps.tree, fun slot b hb => ?_⟩
    · rw [hd, ← hcrate, View.mapOf?_own]
    · -- No glob has bound anything yet.
      have hfirm : start.Firm slot b := ⟨hb, by rw [hopened.globSources]; rfl⟩
      exact (hkeeps.firm slot b hfirm).1
  · rw [View.mapOf?_of_ne hd] at hmap
    refine ⟨map, ?_, rfl, fun _ _ hb => hb⟩
    rw [View.mapOf?_of_ne (hcrate ▸ hd), hkeeps.dependencies]
    exact hmap

/-- In every state of a build all that lookups come to is there, if the views that were finished
before are intact. -/
theorem Workspace.Run.bears_refers (h : Run graph settings w)
    (hbefore : ∀ d view, w.view? d = some view → view.Intact graph)
    (hopen : openBuild graph id crate w.map? settings = .ok (start, imports))
    (hcourse : Collection.Course limit imports start past hand c) :
    c.view.Bears start.view.Refers (fun m => m.index < start.tree.size) (graph.Nameable id) := by
  have hopened := opened_of_openBuild hopen
  have hsolid := h.solid_opening hopen
  have hstart : start.view.crate = id := hopened.crate
  refine h.bears hopen start.tree.size_pos ?_ ?_ ?_ ?_ ?_ ?_ ?_ hcourse
  · exact fun m a hm ha => ModuleTree.lt_size_of_mem_ancestors hm ha
  · exact fun i hi => (hopened.imports i hi).1
  · exact fun a ha => hsolid.refers_moduleBinding (View.has_global.2 ha)
  · intro root hroot
    refine hsolid.refers_moduleBinding ((linked_of_openBuild hopen).has_root ?_)
    rwa [hstart]
  · exact fun slot b hb => hsolid.refers_declared hb (hopened.fits slot b hb)
  · -- What another crate binds is there in its own view, all of which is shown.
    intro d sub slot b _ hsub hshows hb _
    exact ((hbefore d sub hsub).refers _ b (Or.inl ⟨_, _, hb⟩)).upheld hshows.upholds
  · exact fun ns b visibility hb => hb.handedOn start.tree visibility

/-- In every state of a build the view is intact, if those that were finished before are. -/
theorem Workspace.Run.intact (h : Run graph settings w)
    (hbefore : ∀ d view, w.view? d = some view → view.Intact graph)
    (hopen : openBuild graph id crate w.map? settings = .ok (start, imports))
    (hcourse : Collection.Course limit imports start past hand c) : c.view.Intact graph := by
  have hopened := opened_of_openBuild hopen
  have hlinked := hcourse.linked hopened (linked_of_openBuild hopen)
  have hupholds := hcourse.upholds hopened
  have hkeeps := (hcourse.keeps hopened.coherent).1
  have hbears := h.bears_refers hbefore hopen hcourse
  rw [← hcourse.crate_eq hopened, show start.tree = c.view.tree from hkeeps.tree.symm] at hbears
  refine hbears.intact hupholds (hcourse.orderly hopened) (fun _ => hlinked.has_root) ?_
  -- The prelude is the one that was found before any import.
  intro p hp
  rw [show c.view.own.prelude = _ from hkeeps.prelude] at hp
  obtain ⟨path, hlocate⟩ := prelude_of_openBuild hopen p hp
  exact hupholds.has ((h.solid_opening hopen).has_of_locate? hlocate)

theorem Workspace.Run.intact_of_view? (h : Run graph settings w) {view : View}
    (hview : w.view? id = some view) : view.Intact graph := by
  refine h.view_invariant (P := fun _ view => view.Intact graph) ?_ id view hview
  intro w hw hbefore id crate start imports past c _ hopen hcourse
  exact hw.intact hbefore hopen hcourse

/-- What a module can come to by lookups in a finished view is there. -/
theorem Workspace.Run.refers_of_finds (h : Run graph settings w) {view : View}
    (hview : w.view? id = some view) {m : LocalId} (hm : m.index < view.tree.size) {ns : Namespace}
    {b : Binding} (hb : view.Finds m ns b) : view.Refers ns b := by
  revert hm hb
  refine h.view_invariant (P := fun _ view => m.index < view.tree.size → view.Finds m ns b →
    view.Refers ns b) ?_ id view hview
  intro w hw _ id crate start imports past c _ hopen hcourse hm hb
  have hopened := opened_of_openBuild hopen
  have hbears := hw.bears_refers (fun _ _ => hw.intact_of_view?) hopen hcourse
  rw [show c.view.tree = start.tree from (hcourse.keeps hopened.coherent).1.tree] at hm
  exact (hbears.finds hm hb).upheld (hcourse.upholds hopened)

/-- In every state of a build the numbers that it goes by are those of modules. -/
theorem Workspace.Run.inRange (h : Run graph settings w)
    (hopen : openBuild graph id crate w.map? settings = .ok (start, imports))
    (hcourse : Collection.Course limit imports start past hand c) : c.InRange imports := by
  have hopened := opened_of_openBuild hopen
  have hlinked := hcourse.linked hopened (linked_of_openBuild hopen)
  have horderly := hcourse.orderly hopened
  have hcoherent := hcourse.coherent hopened.coherent
  have hkeeps := (hcourse.keeps hopened.coherent).1
  have himports : ∀ i ∈ imports, i.module.index < c.tree.size ∧
      ∀ scope, i.visibility = .within scope → c.view.Has scope := by
    intro i hi
    obtain ⟨hlt, hvisible⟩ := hopened.imports i hi
    rw [← hkeeps.tree] at hlt hvisible
    exact ⟨hlt, fun scope hscope => View.has_of_isVisibleFrom hlt hvisible hscope⟩
  refine ⟨hcoherent.sized, fun slot b hb => horderly.own.mem_tree hb, himports, ?_, ?_, ?_, ?_, ?_⟩
  · intro s e he
    obtain ⟨i, hi, -, rfl⟩ := hcoherent.edges s e he
    exact himports i hi
  · exact fun path m hlocate => (h.solid hlinked horderly.own).has_of_locate? hlocate
  · exact horderly.own.regular.inside
  · exact fun m a hm ha => ModuleTree.lt_size_of_mem_ancestors hm ha
  · intro name root hroot
    obtain ⟨hdirect, hnames⟩ := externPrelude_of_openBuild hopen
    rw [hkeeps.directCrates, hdirect] at hroot
    refine hlinked.has_root ?_
    rw [hcourse.crate_eq hopened]
    exact Or.inr (hnames name root hroot)

end Build

/-- **No dangling references.**  In every run of a workspace each finished view is that of its crate
and intact.  So is the view in every state in which the build of any crate can be, and the numbers
that the build goes by are those of modules; this is so from the beginning, when the walk over the
item tree comes to modules that are there only. -/
theorem no_dangling_references {graph : CrateGraph} {settings : Settings} {w : Workspace}
    (h : Workspace.Run graph settings w) :
    (∀ id view, w.view? id = some view → view.crate = id ∧ view.Intact graph) ∧
    (∀ id crate start imports limit past hand c,
      openBuild graph id crate w.map? settings = .ok (start, imports) →
      Collection.Course limit imports start past hand c →
      c.view.Intact graph ∧ c.InRange imports) ∧
    ∀ id name edition names body o m task,
      Outline.Visits (.initial id name edition names) body o m task →
      m.index < o.map.tree.size := by
  have hviews : ∀ id view, w.view? id = some view → view.Intact graph :=
    fun _ _ => h.intact_of_view?
  refine ⟨fun id view hview => ⟨(h.orderly hview).1, hviews id view hview⟩, ?_, ?_⟩
  · intro id crate start imports limit past hand c hopen hcourse
    exact ⟨h.intact hviews hopen hcourse, h.inRange hopen hcourse⟩
  · intro id name edition names body o m task hvisits
    exact (hvisits.steps_ready (Outline.atModule_initial id name edition names)).2.toAt.inside

/-- The struct of the small lender reaches the inner module of the borrower in two steps.  It is
found in the crate that it is of from the finished view, and from the end of a build of the borrower
after both crates were built. -/
theorem no_dangling_references_lending : ∃ w view b start imports past c,
    Workspace.Run lendingGraph {} w ∧ w.view? ⟨1⟩ = some view ∧
    view.own.binding? ⟨⟨1⟩, "S", .types⟩ = some b ∧ b.path = ⟨⟨0⟩, ["m", "S"]⟩ ∧
    openBuild lendingGraph ⟨1⟩ borrower w.map? {} = .ok (start, imports) ∧
    Collection.Course 3 imports start past none c ∧
    (c.map.binding? ⟨⟨1⟩, "S", .types⟩).map Binding.path = some ⟨⟨0⟩, ["m", "S"]⟩ ∧
    view.Refers .types b ∧ c.view.Intact lendingGraph ∧ c.InRange imports := by
  have hbound : ((Workspace.buildAll { graph := lendingGraph } (fun _ _ => false)).workspace.view?
      ⟨1⟩).bind (fun view => (view.own.binding? ⟨⟨1⟩, "S", .types⟩).map Binding.path)
      = some ⟨⟨0⟩, ["m", "S"]⟩ := by cbv
  obtain ⟨view, hview, hpath⟩ := Option.bind_eq_some_iff.1 hbound
  obtain ⟨b, hb, hpath⟩ := Option.map_eq_some_iff.1 hpath
  generalize hw : (Workspace.buildAll { graph := lendingGraph } (fun _ _ => false)).workspace = w
    at hview
  have hrun : Workspace.Run lendingGraph {} w := by
    rw [← hw]
    exact .buildAll .fresh _
  have hcollected : (openBuild lendingGraph ⟨1⟩ borrower w.map? {} >>= fun r =>
      (Collection.run 3 (fun _ => false) r.2 r.1)).map (fun outcome =>
        (outcome.collection.map.binding? ⟨⟨1⟩, "S", .types⟩).map Binding.path)
      = .ok (some ⟨⟨0⟩, ["m", "S"]⟩) := by
    rw [← hw]
    cbv
  obtain ⟨outcome, hcollect, hend⟩ := ok_of_map hcollected
  obtain ⟨⟨start, imports⟩, hopen, hcollect⟩ := ok_of_bind hcollect
  obtain ⟨past, hcourse⟩ := Collection.Course.of_run (fun i hi => hi) hcollect
  obtain ⟨hviews, hbuilds, -⟩ := no_dangling_references hrun
  obtain ⟨hintact, hrange⟩ := hbuilds _ _ _ _ _ _ _ _ hopen hcourse
  exact ⟨w, view, b, start, imports, past, outcome.collection, hrun, hview, hb, hpath, hopen,
    hcourse, hend, (hviews ⟨1⟩ view hview).2.refers .types b (Or.inl ⟨_, _, hb⟩), hintact, hrange⟩

end CrateScope
