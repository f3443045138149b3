import CrateScope.Proofs.Heredity

/-!
# Imports never widen visibility

An import hands bindings on with a visibility that is never wider than the one that they had.  So at
the end of any chain of imports an item is at most as visible as it was declared, and other crates
only ever get hold of what was declared public.

Modules are the exception.  A path such as `crate` or `self` names a module without regard to the
visibility with which the module was declared, and an import of such a path makes it as visible as
the import says.  Enums, which have names inside as well, cannot be named in this way.

## Main definitions

* `Visibility.Covers` — one visibility is the same as another one or wider.
* `CrateGraph.outline?` — the declarations of a crate.
* `Outline.Begins` — a build begins with them.
* `CrateGraph.NamesModule` — a binding is that of a module.
* `CrateGraph.Honours` — an item is bound no wider than it was declared.

## Main results

* `Workspace.Run.honours` — whatever a build binds that is no module it binds no wider than it was
  declared.
* `imports_never_widen_visibility` — the same of all finished views.
-/

namespace CrateScope

/-! ### Wider visibilities -/

namespace Visibility

variable {t : ModuleTree} {a b d : Visibility}

/-- A visibility is the same as another one or wider. -/
def Covers (t : ModuleTree) (a b : Visibility) : Prop := a = b ∨ a.isWiderThan t b = true

theorem covers_everywhere_iff : a.Covers t .everywhere ↔ a = .everywhere := by
  unfold Covers isWiderThan
  cases a <;> simp

theorem everywhere_covers : everywhere.Covers t b := by
  cases b with
  | everywhere => exact Or.inl rfl
  | within scope => exact Or.inr rfl

/-- Handing on does not widen. -/
theorem covers_narrower : a.Covers t (a.narrower t b) := by
  unfold narrower
  split
  · next hwider => exact Or.inr hwider
  · exact Or.inl rfl

theorem isWiderThan_within_iff {wide narrow : ModuleId} :
    (within wide).isWiderThan t (within narrow) = true ↔ wide ≠ narrow ∧
      wide.crate = narrow.crate ∧ wide.crate = t.crate ∧ wide.index ∈ t.ancestors narrow.index := by
  simp only [isWiderThan, Bool.and_eq_true, bne_iff_ne, beq_iff_eq, ModuleTree.encloses_iff,
    and_assoc]

theorem Covers.trans (h : a.Covers t b) (h' : b.Covers t d) : a.Covers t d := by
  rcases h with rfl | h
  · exact h'
  · rcases h' with rfl | h'
    · exact Or.inr h
    · cases a with
      | everywhere => exact everywhere_covers
      | within wide =>
        cases b with
        | everywhere => cases h
        | within middle =>
          cases d with
          | everywhere => cases h'
          | within narrow =>
            -- Where the outer modules are the same they are the inner one as well.
            obtain ⟨-, hcrate, htree, hin⟩ := isWiderThan_within_iff.1 h
            obtain ⟨-, hcrate', -, hin'⟩ := isWiderThan_within_iff.1 h'
            refine or_iff_not_imp_left.2 fun hne => isWiderThan_within_iff.2 ⟨?_, ?_, htree, ?_⟩
            · rintro rfl
              exact hne rfl
            · exact hcrate.trans hcrate'
            · exact ModuleTree.ancestors_trans hin hin'

end Visibility

/-! ### Declarations -/

namespace CrateGraph

variable {g : CrateGraph} {settings : Settings} {id d : CrateId} {t : ModuleTree} {ns : Namespace}
  {b : Binding}

/-- What is declared in a crate. -/
def outline? (g : CrateGraph) (settings : Settings) (id : CrateId) : Option Outline := do
  let crate ← g.crate? id
  let names ← (directNames g id).toOption
  return crate.outline id settings names

/-- A binding is that of a module which is no enum. -/
def NamesModule (g : CrateGraph) (settings : Settings) (b : Binding) : Prop :=
  b.isModuleOrEnum = true ∧ ∃ o m, g.outline? settings b.path.crate = some o ∧
    o.map.tree.descend? .root b.path.segments = some m ∧ o.map.tree.kind? m = some .module

/-- In the crate `id` with the tree `t` a binding is no wider than its item was declared: the
declaration of the item, in the same namespace, has the same visibility or a wider one, and if it is
of another crate it is public. -/
def Honours (g : CrateGraph) (settings : Settings) (id : CrateId) (t : ModuleTree) (ns : Namespace)
    (b : Binding) : Prop :=
  ∃ o d, g.outline? settings b.path.crate = some o ∧ o.map.bindingAt? ns b.path = some d ∧
    d.path = b.path ∧ d.isModuleOrEnum = b.isModuleOrEnum ∧
    (b.path.crate = id → d.visibility.Covers t b.visibility) ∧
    (b.path.crate ≠ id → d.visibility = .everywhere)

theorem Honours.handedOn (h : g.Honours settings id t ns b) (visibility : Visibility) :
    g.Honours settings id t ns (b.handedOn t visibility) := by
  obtain ⟨o, d, ho, hd, hpath, hkind, hown, hother⟩ := h
  exact ⟨o, d, ho, hd, hpath, hkind, fun hid => (hown hid).trans Visibility.covers_narrower, hother⟩

/-- What one crate binds for everyone was declared public, so that it is no wider elsewhere. -/
theorem Honours.of_everywhere (h : g.Honours settings d t ns b)
    (hpublic : b.visibility = .everywhere) {t' : ModuleTree} : g.Honours settings id t' ns b := by
  obtain ⟨o, d', ho, hd, hpath, hkind, hown, hother⟩ := h
  -- In the crate of the item nothing else covers public, and any other crate has it as public.
  have hdeclared : d'.visibility = .everywhere := by
    by_cases hd : b.path.crate = d
    · have hcovers := hown hd
      rw [hpublic] at hcovers
      exact Visibility.covers_everywhere_iff.1 hcovers
    · exact hother hd
  refine ⟨o, d', ho, hd, hpath, hkind, fun _ => ?_, fun _ => hdeclared⟩
  rw [hdeclared]
  exact Visibility.everywhere_covers

theorem outline?_eq {crate : CrateSource} {names : Listing Name ModuleId}
    (hcrate : g.crate? id = some crate) (hnames : directNames g id = .ok names) :
    g.outline? settings id = some (crate.outline id settings names) := by
  unfold outline?
  rw [hcrate, hnames]
  rfl

/-- The outline of a crate is orderly, and its tree is that of the crate. -/
theorem orderly_outline? {o : Outline} (h : g.outline? settings id = some o) :
    o.Orderly ∧ o.map.tree.crate = id := by
  simp only [outline?, Option.bind_eq_bind, Option.bind_eq_some_iff, Option.pure_def,
    Option.some.injEq] at h
  obtain ⟨crate, -, names, -, rfl⟩ := h
  exact ⟨Outline.orderly_ofBody id crate.name _ names crate.root,
    (Outline.sound_ofBody id crate.name _ names crate.root).2.tree.crate⟩

end CrateGraph

/-- A build begins with an outline: with its tree, its declarations, its imports, and what was told
of them. -/
structure Outline.Begins (o : Outline) (imports : List Import) (start : Collection) : Prop where
  tree : start.tree = o.map.tree
  bound : ∀ slot, start.map.binding? slot = o.map.binding? slot
  told : start.map.diagnostics = o.map.diagnostics
  imports : imports = o.imports

/-- A build begins with the outline of the crate. -/
theorem outline?_of_openBuild {g : CrateGraph} {settings : Settings} {id : CrateId}
    {crate : CrateSource} {finished : CrateId → Option CrateMap} {start : Collection}
    {imports : List Import} (hcrate : g.crate? id = some crate)
    (h : openBuild g id crate finished settings = .ok (start, imports)) :
    ∃ names, g.outline? settings id = some (crate.outline id settings names) ∧
      (crate.outline id settings names).Begins imports start := by
  obtain ⟨maps, names, prelude, log, -, hnames, himports, rfl, -⟩ := openBuild_ok h
  exact ⟨names, CrateGraph.outline?_eq hcrate hnames, rfl, fun _ => rfl, rfl, himports⟩

/-! ### What builds find to begin with -/

section Build

variable {graph : CrateGraph} {settings : Settings} {w : Workspace} {id : CrateId}
  {crate : CrateSource} {finished : CrateId → Option CrateMap} {start c : Collection}
  {imports : List Import} {limit : Nat} {past : List Collection} {hand : Option SettledImport}

/-- The modules from which the paths of a crate start are known as modules. -/
theorem namesModule_global (hcrate : graph.crate? id = some crate)
    (hopen : openBuild graph id crate finished settings = .ok (start, imports)) {a : LocalId}
    (ha : start.tree.kind? a = some .module) :
    graph.NamesModule settings (start.view.moduleBinding (start.tree.global a)) := by
  have hopened := opened_of_openBuild hopen
  have hid : start.tree.crate = id := hopened.crate
  obtain ⟨names, ho, hbegins⟩ := outline?_of_openBuild hcrate hopen
  have hlt : a.index < start.tree.size := by
    refine Nat.lt_of_not_le fun hle => ?_
    rw [ModuleTree.kind?, ModuleTree.module?_eq_none_iff.2 hle] at ha
    cases ha
  rw [View.moduleBinding_of_mapOf? (View.mapOf?_own start.view)]
  refine ⟨rfl, _, a, ?_, ?_, by rwa [← hbegins.tree]⟩
  · rw [← ho, ← hid]
    exact congrArg (graph.outline? settings) (hopened.regular.crate_pathOf a)
  · rw [← hbegins.tree]
    exact hopened.regular.descend?_pathOf a hlt

/-- A declaration honours itself. -/
theorem honours_declared (hcrate : graph.crate? id = some crate)
    (hopen : openBuild graph id crate finished settings = .ok (start, imports)) {slot : Slot}
    {b : Binding} (hb : start.map.binding? slot = some b) :
    graph.Honours settings id start.tree slot.space b := by
  have hopened := opened_of_openBuild hopen
  obtain ⟨names, ho, hbegins⟩ := outline?_of_openBuild hcrate hopen
  obtain ⟨horderly, hid⟩ := CrateGraph.orderly_outline? ho
  have hfits := hopened.fits slot b hb
  have hlt : slot.module.index < start.tree.size := by
    rw [← hopened.sized]
    exact CrateMap.lt_size_of_binding? hb
  rw [hbegins.bound] at hb
  rw [hbegins.tree] at hfits hlt
  have hpath : b.path.crate = id := by
    rw [hfits.path]
    exact (horderly.tree.crate_pathOf slot.module).trans hid
  refine ⟨_, b, ?_, hfits.bindingAt? horderly.tree hlt hb, rfl, rfl, fun _ => Or.inl rfl,
    fun hne => absurd hpath hne⟩
  rw [hpath]
  exact ho

namespace Workspace.Run

/-- A crate that was built has an outline. -/
theorem exists_outline (h : Run graph settings w) {view : View} (hview : w.view? id = some view) :
    ∃ o, graph.outline? settings id = some o := by
  refine h.view_invariant (P := fun id _ => ∃ o, graph.outline? settings id = some o) ?_ id view
    hview
  intro w _ _ id crate start imports past c hcrate hopen _
  obtain ⟨names, ho, -⟩ := outline?_of_openBuild hcrate hopen
  exact ⟨_, ho⟩

/-- The root of a crate that was built is known as a module. -/
theorem namesModule_root (h : Run graph settings w) {view top : View}
    (hview : w.view? id = some view) (hsolid : top.Solid) (hhas : top.Has id.root) :
    graph.NamesModule settings (top.moduleBinding id.root) := by
  obtain ⟨o, ho⟩ := h.exists_outline hview
  obtain ⟨map, hmap, -⟩ := hhas
  obtain ⟨hcrate, horderly⟩ := hsolid id map hmap
  have hpath : (top.moduleBinding id.root).path = ⟨id, []⟩ := by
    rw [View.moduleBinding_of_mapOf? hmap, ← hcrate]
    exact horderly.regular.root
  refine ⟨?_, o, .root, ?_, ?_, (CrateGraph.orderly_outline? ho).1.tree.rootKind⟩
  · rw [View.moduleBinding_of_mapOf? hmap]
    rfl
  · rw [hpath]
    exact ho
  · rw [hpath]
    rfl

/-- The crates that can be named are known as modules. -/
theorem namesModule_nameable (h : Run graph settings w) (hcrate : graph.crate? id = some crate)
    (hopen : openBuild graph id crate w.map? settings = .ok (start, imports)) {root : ModuleId}
    (hroot : graph.Nameable id root) :
    graph.NamesModule settings (start.view.moduleBinding root) := by
  have hopened := opened_of_openBuild hopen
  have hlinked := linked_of_openBuild hopen
  have hid : start.view.crate = id := hopened.crate
  rcases hroot with rfl | ⟨d, hd, rfl⟩
  · have hown := namesModule_global hcrate hopen hopened.regular.rootKind
    rwa [show start.tree.global .root = id.root by rw [← hid]; rfl] at hown
  · rw [← hid] at hd
    obtain ⟨map, hmap⟩ := Option.isSome_iff_exists.1 (hlinked.built d (.single hd))
    obtain ⟨view, hview, -⟩ := Option.map_eq_some_iff.1 hmap
    exact h.namesModule_root hview (h.solid_opening hopen) (hlinked.has_root (Or.inr ⟨d, hd, rfl⟩))

/-! ### What they bind -/

/-- Whatever is bound in a build, after builds that honoured the declarations, is a module or
honours the declaration of its item. -/
theorem honours (h : Run graph settings w)
    (hbefore : ∀ d view, w.view? d = some view → ∀ ns b, view.Stores ns b →
      graph.NamesModule settings b ∨ graph.Honours settings d view.tree ns b)
    (hcrate : graph.crate? id = some crate)
    (hopen : openBuild graph id crate w.map? settings = .ok (start, imports))
    (hcourse : Collection.Course limit imports start past hand c) {ns : Namespace} {b : Binding}
    (hb : c.view.Stores ns b) :
    graph.NamesModule settings b ∨ graph.Honours settings id c.tree ns b := by
  have hopened := opened_of_openBuild hopen
  have hbears : c.view.Bears (fun ns b => graph.NamesModule settings b ∨
        graph.Honours settings id start.tree ns b)
      (fun m => start.tree.kind? m = some .module) (graph.Nameable id) := by
    refine h.bears hopen hopened.regular.rootKind ?_ hopened.kinds ?_ ?_ ?_ ?_ ?_ hcourse
    · exact fun m a hm ha => hopened.regular.kind?_ancestor hm ha
    -- Paths start from no enum, so that whatever is known without a declaration is a module.
    · exact fun a ha => Or.inl (namesModule_global hcrate hopen ha)
    · exact fun root hroot => Or.inl (h.namesModule_nameable hcrate hopen hroot)
    · exact fun slot b hb => Or.inr (honours_declared hcrate hopen hb)
    · -- What another crate binds for everyone was declared public, in whatever crate.
      intro d sub slot b _ hsub _ hb hpublic
      rcases hbefore d sub hsub slot.space b (Or.inl ⟨_, _, hb⟩) with hnames | hhonours
      · exact Or.inl hnames
      · exact Or.inr (hhonours.of_everywhere hpublic)
    · rintro ns b visibility (hnames | hhonours)
      · exact Or.inl hnames
      · exact Or.inr (hhonours.handedOn visibility)
  rw [(hcourse.keeps hopened.coherent).1.tree]
  exact hbears.stores hb

end Workspace.Run

end Build

/-- **Imports never widen visibility.**  In every run of a workspace, whatever the finished view of
a crate binds in a slot or as a macro that is known everywhere is a module, or its item was declared
with the visibility of the binding or with a wider one; and if the item is of another crate, it was
declared public. -/
theorem imports_never_widen_visibility {graph : CrateGraph} {settings : Settings} {w : Workspace}
    (h : Workspace.Run graph settings w) : ∀ id view, w.view? id = some view → ∀ ns b,
    view.Stores ns b → ¬ graph.NamesModule settings b →
    graph.Honours settings id view.tree ns b := by
  have hall := h.view_invariant (P := fun id view => ∀ ns b, view.Stores ns b →
    graph.NamesModule settings b ∨ graph.Honours settings id view.tree ns b) ?_
  · exact fun id view hview ns b hb hitem => (hall id view hview ns b hb).resolve_left hitem
  · intro w hw hbefore id crate start imports past c hcrate hopen hcourse ns b hb
    exact hw.honours hbefore hcrate hopen hcourse hb

/-- The public struct of the small lender is bound in the borrower, which restricts it to itself,
and the private function that stands beside it is not bound there. -/
theorem imports_never_widen_visibility_lending : ∃ w view b,
    Workspace.Run lendingGraph {} w ∧ w.view? ⟨1⟩ = some view ∧
    view.own.binding? ⟨.root, "f", .values⟩ = none ∧
    view.own.binding? ⟨.root, "S", .types⟩ = some b ∧ b.path = ⟨⟨0⟩, ["m", "S"]⟩ ∧
    b.visibility = .within ⟨⟨1⟩, .root⟩ ∧ ¬ lendingGraph.NamesModule {} b ∧
    lendingGraph.Honours {} ⟨1⟩ view.tree .types b := by
  have hbound : ((Workspace.buildAll { graph := lendingGraph } (fun _ _ => false)).workspace.view?
      ⟨1⟩).map (fun view => (view.own.binding? ⟨.root, "f", .values⟩,
        view.own.binding? ⟨.root, "S", .types⟩))
      = some (none, some ⟨⟨⟨0⟩, ["m", "S"]⟩, .within ⟨⟨1⟩, .root⟩, false⟩) := by cbv
  obtain ⟨view, hview, hslots⟩ := Option.map_eq_some_iff.1 hbound
  obtain ⟨hf, hS⟩ := Prod.mk.inj hslots
  have hrun : Workspace.Run lendingGraph {}
      (Workspace.buildAll { graph := lendingGraph } (fun _ _ => false)).workspace :=
    .buildAll .fresh _
  have hitem : ¬ lendingGraph.NamesModule {}
      ⟨⟨⟨0⟩, ["m", "S"]⟩, .within ⟨⟨1⟩, .root⟩, false⟩ := by
    rintro ⟨hkind, -⟩
    cases hkind
  exact ⟨_, view, _, hrun, hview, hf, hS, rfl, rfl, hitem,
    imports_never_widen_visibility hrun ⟨1⟩ view hview .types _ (Or.inl ⟨_, _, hS⟩) hitem⟩

end CrateScope
