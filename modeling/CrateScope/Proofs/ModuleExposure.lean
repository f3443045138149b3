import CrateScope.Proofs.Exposure
import CrateScope.Proofs.References

/-!
# How visible imports make modules

A module gets into bindings on two ways.  By its name it is found where it is declared, with the
visibility of the declaration, and no import widens that.  A path of keywords alone, such as `self`
or `super`, leads to a module without its name, and then the visibility of the declaration does not
count: an import like `pub use self as x` makes a private module public.

There is no third way.  Each binding of a module or an enum is covered by the declaration, or by
some import that names the module by keywords alone.

## Main definitions

* `Path.ClimbsTo` — a path of keywords alone leads to a module.
* `Outline.Lifts` — an import makes a module as visible as the import is.
* `Outline.Capped` — a binding of a module is as visible as the declaration or such an import is.

## Main results

* `View.Bears.resolve` — what a path means was bound, or the path has keywords alone.
* `modules_are_as_visible_as_declared_or_lifted` — the bindings of modules in all finished views.
* `imports_of_self_can_widen_visibility` — one that is wider than the declaration.
-/

namespace CrateScope

/-- A path of keywords alone leads from the module `m` to `a`. -/
def Path.ClimbsTo (path : Path) (t : ModuleTree) (m a : LocalId) : Prop :=
  ∃ levels, path = ⟨.super levels, []⟩ ∧ t.climb? levels m = some a

/-! ### Where lookups end -/

namespace View.Bears

variable {P : Namespace → Binding → Prop} {Q : LocalId → Prop} {R : ModuleId → Prop} {view : View}
  {m : LocalId} {path : Path} {use : PathUse} {ns : Namespace} {b : Binding}

/-- A name in scope has a property that the view bears, in whatever module. -/
theorem meaningInScope (h : view.Bears P Q R) {name : Name} {isWholePath : Bool}
    (hb : (view.meaningInScope m name isWholePath).get ns = some b) : P ns b := by
  have hplain : ∀ b, (((view.own.meaning m name).orElse (view.externMeaning name)).orElse
      (view.preludeMeaning name)).get ns = some b → P ns b := by
    intro b hb
    rw [Meaning.get_orElse, Option.or_eq_some_iff, Meaning.get_orElse, Option.or_eq_some_iff] at hb
    rcases hb with (hb | ⟨-, hb⟩) | ⟨-, hb⟩
    · exact h.bindings ⟨m, name, ns⟩ b hb
    · exact h.start h.root (start_externMeaning hb)
    · exact h.start h.root (start_preludeMeaning hb)
  unfold View.meaningInScope at hb
  dsimp only at hb
  split at hb
  · rw [Meaning.get_orElse, Option.or_eq_some_iff] at hb
    rcases hb with hb | ⟨-, hb⟩
    · exact hplain b hb
    · exact h.start h.root (start_macroMeaning hb)
  · exact hplain b hb

/-- What is found inside of something was bound in a module. -/
theorem followIn (h : view.Bears P Q R) {host : Binding} {names : List Name} (hne : names ≠ [])
    (hb : view.followIn m ns host names = some b) : P ns b := by
  induction names generalizing host with
  | nil => exact absurd rfl hne
  | cons name names ih =>
    rw [View.followIn] at hb
    split at hb
    · cases hinside : view.locate? host.path with
      | none =>
        rw [hinside] at hb
        cases hb
      | some inside =>
        simp only [hinside, Option.bind_eq_some_iff] at hb
        obtain ⟨next, hnext, hb⟩ := hb
        rw [Meaning.visible, Meaning.get_filterVisibility, Option.filter_eq_some_iff] at hnext
        cases names with
        | nil =>
          cases hb
          exact h.meaning hnext.1 hnext.2
        | cons name' names => exact ih (List.cons_ne_nil _ _) hb
    · cases hb

/-- A path starts with something that has the property, or with a module to which keywords lead. -/
theorem start_ok (h : view.Bears P Q R) {meaning : Meaning} {names : List Name}
    (hs : view.start m path use = .ok (meaning, names)) (hb : meaning.get ns = some b) :
    P ns b ∨ ∃ levels a, path.anchor = .super levels ∧ path.segments = names ∧
      view.tree.climb? levels m = some a ∧ b = view.moduleBinding (view.tree.global a) := by
  have hroot : ∀ ns b, (view.ownModule .root).get ns = some b → P ns b := by
    intro ns b hb
    obtain ⟨rfl, rfl⟩ := Meaning.get_only_eq_some_iff.1 hb
    exact h.own .root h.root
  unfold View.start at hs
  split at hs
  · cases hs
    exact Or.inl (hroot ns b hb)
  · next levels hanchor =>
    split at hs
    · next above habove =>
      cases hs
      obtain ⟨rfl, rfl⟩ := Meaning.get_only_eq_some_iff.1 hb
      exact Or.inr ⟨levels, above, hanchor, rfl, habove, rfl⟩
    · cases hs
  · split at hs
    · split at hs
      · cases hs
      · split at hs
        · next root hfound =>
          cases hs
          obtain ⟨rfl, rfl⟩ := Meaning.get_only_eq_some_iff.1 hb
          exact Or.inl (h.crate root (h.crates _ root hfound))
        · cases hs
    · cases hs
      exact Or.inl (hroot ns b hb)
  · cases hs
  · next first rest _ _ =>
    left
    dsimp only at hs
    generalize hfound : (if use = .inImport ∧ view.own.edition.hasUniformPaths = false
      then view.meaningFromRoot first else view.meaningInScope m first rest.isEmpty) = found at hs
    split at hs
    · cases hs
    · cases hs
      rw [← hfound] at hb
      split at hb
      · exact h.start h.root (start_meaningFromRoot hb)
      · exact h.meaningInScope hb

/-- **What a path means was bound**, or it is the module that a path of keywords alone leads to. -/
theorem resolve (h : view.Bears P Q R) (hb : (view.resolve m path use).meaning.get ns = some b) :
    P ns b ∨ ∃ a, path.ClimbsTo view.tree m a ∧ b = view.moduleBinding (view.tree.global a) := by
  rw [get_resolve, Option.bind_eq_some_iff] at hb
  obtain ⟨⟨first, names⟩, hstart, hb⟩ := hb
  by_cases hne : names = []
  · -- The path is what it starts with.
    subst hne
    cases hb
    unfold startIn at hstart
    split at hstart
    · cases hstart
    · next meaning names hs =>
      simp only [Option.map_eq_some_iff, Prod.mk.injEq] at hstart
      obtain ⟨first, hfirst, rfl, rfl⟩ := hstart
      refine (h.start_ok hs hfirst).imp_right ?_
      rintro ⟨levels, a, hanchor, hsegments, hclimb, rfl⟩
      refine ⟨a, ⟨levels, ?_, hclimb⟩, rfl⟩
      rw [← hanchor, ← hsegments]
  · exact Or.inl (h.followIn hne hb)

end View.Bears

/-! ### As visible as declared -/

namespace Outline

variable {o : Outline} {b d : Binding} {module : ItemPath} {visibility : Visibility}

/-- A module is lifted to a visibility: an import names it by keywords alone, and is itself as
visible as that, or more. -/
def Lifts (o : Outline) (module : ItemPath) (visibility : Visibility) : Prop :=
  ∃ i ∈ o.imports, i.kind = .named ∧
    (∃ a, i.path.ClimbsTo o.map.tree i.module a ∧ o.map.tree.pathOf a = module) ∧
    i.visibility.Covers o.map.tree visibility

/-- If a binding is of the module or enum that was declared with the binding `d`, it is as visible
as that at most, or as an import that lifts the module. -/
def Capped (o : Outline) (d b : Binding) : Prop :=
  b.isModuleOrEnum = true → b.path = d.path →
    d.visibility.Covers o.map.tree b.visibility ∨ o.Lifts d.path b.visibility

theorem Capped.handedOn (h : o.Capped d b) (visibility : Visibility) :
    o.Capped d (b.handedOn o.map.tree visibility) := by
  intro hkind hpath
  refine (h hkind hpath).imp (fun hcovers => hcovers.trans Visibility.covers_narrower) ?_
  rintro ⟨i, hi, hnamed, hclimbs, hcovers⟩
  exact ⟨i, hi, hnamed, hclimbs, hcovers.trans Visibility.covers_narrower⟩

end Outline

theorem Visibility.everywhere_narrower (t : ModuleTree) (visibility : Visibility) :
    everywhere.narrower t visibility = visibility := by
  cases visibility <;> rfl

/-- Of a module or an enum there is one declaration. -/
theorem Collection.Opened.eq_of_path {id : CrateId} {imports : List Import} {c : Collection}
    (h : c.Opened id imports) {slot slot' : Slot} {b d : Binding}
    (hb : c.map.binding? slot = some b) (hd : c.map.binding? slot' = some d)
    (hkind : b.isModuleOrEnum = true) (hkind' : d.isModuleOrEnum = true)
    (hpath : b.path = d.path) : b = d := by
  -- Both are what is bound at the path among the types.
  have hfits := h.fits slot b hb
  have hfits' := h.fits slot' d hd
  have hinside : ∀ {slot : Slot} {b : Binding}, c.map.binding? slot = some b →
      slot.module.index < c.tree.size :=
    fun hb => Nat.lt_of_lt_of_eq (CrateMap.lt_size_of_binding? hb) h.sized
  have hfound := hfits.bindingAt? h.regular (hinside hb) hb
  have hfound' := hfits'.bindingAt? h.regular (hinside hd) hd
  rw [(hfits.inside hkind).1, hpath] at hfound
  rw [(hfits'.inside hkind').1] at hfound'
  exact Option.some.inj (hfound.symm.trans hfound')

/-! ### Builds -/

section Build

variable {graph : CrateGraph} {settings : Settings} {w : Workspace} {id : CrateId}
  {crate : CrateSource} {start c : Collection} {imports : List Import} {limit : Nat}
  {past : List Collection} {hand : Option SettledImport} {finished : CrateId → Option CrateMap}
  {o : Outline} {d : Binding}

/-- What another crate binds, as far as it is shown, is of no crate that depends on it. -/
theorem Workspace.Run.foreign_crate_ne (h : Run graph settings w)
    (hopen : openBuild graph id crate w.map? settings = .ok (start, imports)) {other : CrateId}
    (hne : other ≠ id) {sub : View} (hsub : w.view? other = some sub)
    (hshows : start.view.Shows sub) {ns : Namespace} {b : Binding} (hb : sub.Stores ns b) :
    b.path.crate ≠ id := by
  have hlinked := linked_of_openBuild hopen
  have hid : start.view.crate = id := (opened_of_openBuild hopen).crate
  obtain ⟨hother, -⟩ := h.orderly hsub
  rintro heq
  rcases (h.intact_of_view? hsub).known ns b hb with hown | hdependency
  · exact hne (hother.symm.trans (hown.symm.trans heq))
  · -- Each of the two crates would depend on the other one.
    obtain ⟨map, hmap⟩ := Option.isSome_iff_exists.1 hdependency
    have hback := (((h.linked hsub).shown _ _).1 hmap).1
    have hshown := hshows sub.crate sub.own (View.mapOf?_own sub)
    rw [View.mapOf?_of_ne (by rw [hother, hid]; exact hne), hlinked.shown] at hshown
    rw [heq, ← hid] at hback
    exact hlinked.acyclic (hshown.1.trans hback)

/-- The root of a crate is no declared module. -/
theorem path_ne_of_nameable (h : Workspace.Run graph settings w)
    (hopen : openBuild graph id crate w.map? settings = .ok (start, imports)) {root : ModuleId}
    (hroot : graph.Nameable id root) {slot : Slot} (hd : start.map.binding? slot = some d) :
    (start.view.moduleBinding root).path ≠ d.path := by
  have hopened := opened_of_openBuild hopen
  have hid : start.view.crate = id := hopened.crate
  obtain ⟨map, hmap, -⟩ := (linked_of_openBuild hopen).has_root (by rwa [hid])
  obtain ⟨-, horderly⟩ := h.solid_opening hopen root.crate map hmap
  have hindex : root.index = .root := by
    rcases hroot with rfl | ⟨_, -, rfl⟩ <;> rfl
  intro heq
  rw [View.moduleBinding_of_mapOf? hmap, (hopened.fits slot d hd).path] at heq
  have hsegments := congrArg ItemPath.segments heq
  rw [ItemPath.segments_child] at hsegments
  change (map.tree.pathOf root.index).segments = _ at hsegments
  rw [hindex, horderly.regular.root] at hsegments
  exact List.append_ne_nil_of_right_ne_nil _ (List.cons_ne_nil _ _) hsegments.symm

/-- What an import with a name hands on is capped, if all is that is bound. -/
theorem Collection.hands_capped (hbegins : o.Begins imports start) (hc : c.tree = start.tree)
    {Q : LocalId → Prop} {R : ModuleId → Prop} (hbears : c.view.Bears (fun _ => o.Capped d) Q R)
    (hrooted : Rooted R c) {i : Import} (hi : i ∈ imports) {meaning : Meaning}
    (hm : (c.status i).meaning? = some meaning) :
    Hands (fun _ => o.Capped d) R c.view i meaning := by
  have htree : c.view.tree = o.map.tree := hc.trans hbegins.tree
  have hhanded : ∀ b visibility, o.Capped d b → o.Capped d (b.handedOn c.view.tree visibility) := by
    rw [htree]
    exact fun _ visibility hb => hb.handedOn visibility
  rcases meaning_status hm with ⟨macroUse, root, hk, hroot, rfl⟩ | ⟨hk, rfl⟩
  · have hR := hrooted.of_externRoot? hroot
    refine ⟨fun _ ns b hb => ?_, fun _ _ => ⟨root, hR, rfl⟩⟩
    obtain ⟨rfl, rfl⟩ := Meaning.get_only_eq_some_iff.1 hb
    exact hhanded _ _ (hbears.crate root hR)
  · refine ⟨fun hglob ns b hb => ?_, fun macroUse hext => absurd hext (hk macroUse)⟩
    rcases hbears.resolve hb with hcapped | ⟨a, hclimbs, rfl⟩
    · exact hhanded _ _ hcapped
    · -- The module is handed on as the import says.
      have hnamed : i.kind = .named := by
        cases hkind : i.kind with
        | named => rfl
        | glob => exact absurd hkind hglob
        | externCrate macroUse => exact absurd hkind (hk macroUse)
      rw [View.moduleBinding_of_mapOf? (View.mapOf?_own c.view)]
      intro _ hpath
      rw [htree] at hclimbs ⊢
      refine Or.inr ⟨i, hbegins.imports ▸ hi, hnamed, ⟨a, hclimbs, ?_⟩, Or.inl ?_⟩
      · rw [← hpath, ← htree]
        rfl
      · exact (Visibility.everywhere_narrower o.map.tree i.visibility).symm

/-- In every state of a build the bindings of a module are capped. -/
theorem Workspace.Run.bears_capped (h : Run graph settings w)
    (hopen : openBuild graph id crate w.map? settings = .ok (start, imports))
    (hbegins : o.Begins imports start) {slot : Slot} (hd : o.map.binding? slot = some d)
    (hkind : d.isModuleOrEnum = true)
    (hcourse : Collection.Course limit imports start past hand c) :
    c.view.Bears (fun _ => o.Capped d) (· = .root) (graph.Nameable id) := by
  have hopened := opened_of_openBuild hopen
  have hid : start.tree.crate = id := hopened.crate
  have hd' : start.map.binding? slot = some d := (hbegins.bound slot).trans hd
  have hcrate : d.path.crate = id := by
    rw [(hopened.fits slot d hd').path, ItemPath.crate_child]
    exact (hopened.regular.crate_pathOf _).trans hid
  have hroots : ∀ root, graph.Nameable id root → o.Capped d (start.view.moduleBinding root) :=
    fun root hroot _ hpath => absurd hpath (path_ne_of_nameable h hopen hroot hd')
  have houter : ∀ m a, m = .root → a ∈ start.tree.ancestors m → a = .root := by
    rintro m a rfl ha
    exact congrArg LocalId.mk (Nat.le_zero.1 (ModuleTree.le_of_mem_ancestors ha))
  have hmodule : ∀ a, a = .root → o.Capped d (start.view.moduleBinding (start.tree.global a)) := by
    rintro a rfl
    refine hroots _ (Or.inl ?_)
    rw [← hid]
    rfl
  have hdeclared : ∀ slot b, start.map.binding? slot = some b → o.Capped d b := by
    intro slot' b hb hkind' hpath
    rw [hopened.eq_of_path hb hd' hkind' hkind hpath]
    exact Or.inl (Or.inl rfl)
  have hforeign : ∀ other sub slot b, other ≠ id → w.view? other = some sub →
      start.view.Shows sub → sub.own.binding? slot = some b → b.visibility = .everywhere →
      o.Capped d b := by
    intro other sub slot' b hne hsub hshows hb _ _ hpath
    exact absurd ((congrArg ItemPath.crate hpath).trans hcrate)
      (h.foreign_crate_ne hopen hne hsub hshows (Or.inl ⟨_, _, hb⟩))
  obtain ⟨hbears, hrooted⟩ :=
    h.bears_opening (P := fun _ => o.Capped d) (Q := (· = .root)) hopen rfl houter hmodule hroots
      hdeclared hforeign
  refine hcourse.bears_of_hands hopened.coherent hbears ?_ hrooted
    fun c i hi hc hb hr meaning hm => Collection.hands_capped hbegins hc hb hr hi hm
  rw [hbegins.tree]
  exact fun _ _ visibility hb => hb.handedOn visibility

end Build

/-- **Modules are as visible as they were declared, or as imports lift them.**  Let a module or an
enum be declared in a crate that was finished in a run of a workspace.  Each binding of it in the
crate is covered by the declaration, unless an import names it by keywords alone; then it is covered
by one of these imports, or by the declaration. -/
theorem modules_are_as_visible_as_declared_or_lifted {graph : CrateGraph} {settings : Settings}
    {w : Workspace} (h : Workspace.Run graph settings w) : ∀ id view, w.view? id = some view →
    ∃ o, graph.outline? settings id = some o ∧ view.tree = o.map.tree ∧
      ∀ slot d, o.map.binding? slot = some d → d.isModuleOrEnum = true →
        ∀ slot' b, view.own.binding? slot' = some b → b.isModuleOrEnum = true → b.path = d.path →
          d.visibility.Covers view.tree b.visibility ∨ o.Lifts d.path b.visibility := by
  refine h.view_invariant ?_
  intro w hw _ id crate start imports past c hcrate hopen hcourse
  obtain ⟨names, ho, hbegins⟩ := outline?_of_openBuild hcrate hopen
  have htree : c.view.tree = _ :=
    (hcourse.keeps (opened_of_openBuild hopen).coherent).1.tree.trans hbegins.tree
  refine ⟨_, ho, htree, fun slot d hd hkind slot' b hb => ?_⟩
  rw [htree]
  exact (hw.bears_capped hopen hbegins hd hkind hcourse).bindings slot' b hb

/-! ### A private module that makes itself public -/

/-- A crate with a private module that imports itself for everyone, and that the root imports for
everyone by its name. -/
def upstart : CrateSource where
  name := "upstart"
  root :=
    { items := [
        { name := some "c", kind := .module
            { uses := [{ path := "self", visibility := .pub, alias? := some "x" }] } }]
      uses := [{ path := "c", visibility := .pub, alias? := some "y" }] }

/-- The graph that has only this crate. -/
def upstartGraph : CrateGraph := ⟨[upstart], List.nodup_singleton _⟩

/-- The module is bound under its alias as an import lifts it. -/
theorem modules_are_as_visible_as_declared_or_lifted_upstart : ∃ w view o b,
    Workspace.Run upstartGraph {} w ∧ w.view? ⟨0⟩ = some view ∧
    upstartGraph.outline? {} ⟨0⟩ = some o ∧ view.tree = o.map.tree ∧
    view.own.binding? ⟨⟨1⟩, "x", .types⟩ = some b ∧ b.path = ⟨⟨0⟩, ["c"]⟩ ∧
    b.visibility = .everywhere ∧ o.Lifts ⟨⟨0⟩, ["c"]⟩ .everywhere := by
  have hbuilt : ((Workspace.buildAll { graph := upstartGraph } (fun _ _ => false)).workspace.view?
      ⟨0⟩).bind (fun view => view.own.binding? ⟨⟨1⟩, "x", .types⟩)
      = some ⟨⟨⟨0⟩, ["c"]⟩, .everywhere, true⟩ := by cbv
  have hdeclared : (upstartGraph.outline? {} ⟨0⟩).bind
      (fun o => o.map.binding? ⟨.root, "c", .types⟩)
      = some ⟨⟨⟨0⟩, ["c"]⟩, .within ⟨⟨0⟩, .root⟩, true⟩ := by cbv
  obtain ⟨view, hview, hx⟩ := Option.bind_eq_some_iff.1 hbuilt
  have hrun : Workspace.Run upstartGraph {}
      (Workspace.buildAll { graph := upstartGraph } (fun _ _ => false)).workspace :=
    .buildAll .fresh _
  obtain ⟨o, ho, htree, hcapped⟩ := modules_are_as_visible_as_declared_or_lifted hrun ⟨0⟩ view hview
  rw [ho] at hdeclared
  refine ⟨_, view, o, _, hrun, hview, ho, htree, hx, rfl, rfl, ?_⟩
  -- The declaration does not cover the binding, since it is private.
  refine (hcapped _ _ hdeclared rfl _ _ hx rfl rfl).resolve_left fun hcovers => ?_
  cases Visibility.covers_everywhere_iff.1 hcovers

/-- **Imports of `self` can make a module more visible than it was declared.**  The private module
of the small crate is public under the alias that it gives itself, although nothing is declared
twice.  Under the alias by which the root imports it, it stays private. -/
theorem imports_of_self_can_widen_visibility : ∃ w view o d x y,
    Workspace.Run upstartGraph {} w ∧ w.view? ⟨0⟩ = some view ∧ view.own.diagnostics = [] ∧
    upstartGraph.outline? {} ⟨0⟩ = some o ∧ o.map.binding? ⟨.root, "c", .types⟩ = some d ∧
    d.isModuleOrEnum = true ∧ view.own.binding? ⟨⟨1⟩, "x", .types⟩ = some x ∧
    view.own.binding? ⟨.root, "y", .types⟩ = some y ∧ x.path = d.path ∧ y.path = d.path ∧
    y.visibility = d.visibility ∧ ¬ d.visibility.Covers view.tree x.visibility := by
  have hbuilt : ((Workspace.buildAll { graph := upstartGraph } (fun _ _ => false)).workspace.view?
      ⟨0⟩).map (fun view => (view.own.diagnostics, view.own.binding? ⟨⟨1⟩, "x", .types⟩,
        view.own.binding? ⟨.root, "y", .types⟩))
      = some ([], some ⟨⟨⟨0⟩, ["c"]⟩, .everywhere, true⟩,
        some ⟨⟨⟨0⟩, ["c"]⟩, .within ⟨⟨0⟩, .root⟩, true⟩) := by cbv
  have hdeclared : (upstartGraph.outline? {} ⟨0⟩).bind
      (fun o => o.map.binding? ⟨.root, "c", .types⟩)
      = some ⟨⟨⟨0⟩, ["c"]⟩, .within ⟨⟨0⟩, .root⟩, true⟩ := by cbv
  obtain ⟨view, hview, hresults⟩ := Option.map_eq_some_iff.1 hbuilt
  obtain ⟨hnothing, hresults⟩ := Prod.mk.inj hresults
  obtain ⟨hx, hy⟩ := Prod.mk.inj hresults
  obtain ⟨o, ho, hd⟩ := Option.bind_eq_some_iff.1 hdeclared
  refine ⟨_, view, o, _, _, _, .buildAll .fresh _, hview, hnothing, ho, hd, rfl, hx, hy, rfl, rfl,
    rfl, fun hcovers => ?_⟩
  cases Visibility.covers_everywhere_iff.1 hcovers

end CrateScope
