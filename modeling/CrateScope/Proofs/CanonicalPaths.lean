import CrateScope.Proofs.Accounting
import CrateScope.Proofs.Composition
import CrateScope.Proofs.Duplicates
import CrateScope.Proofs.Exposure

/-!
# Declared items are found at their own paths

The path of a declared item leads from the root through the modules around it.  Each of these is
itself declared in the one around it, unless that name was taken, and such a thing is told.  So in a
crate in which no duplicate is told, the module of a declaration finds it at the path of its item,
word for word as it was declared.  No import changes that: what is declared is never taken back, and
what a module may name around it was declared there.

## Main definitions

* `Outline.Named` — every module and enum is bound to its name.

## Main results

* `Outline.named_ofBody` — so it is if no duplicate was told.
* `Collection.Course.diagnostics_prefix` — what was told stays told.
* `View.hosts_encloser` — from inside of a module its own path stands for it.
* `declared_items_are_found_at_their_paths` — in every crate without duplicates.
-/

namespace CrateScope

/-! ### The names of modules -/

namespace Outline

variable {o o' : Outline} {m : LocalId}

/-- Each module and each enum is bound to its name in the module around it. -/
def Named (o : Outline) : Prop :=
  ∀ p name child, o.map.tree.child? p name = some child →
    ∃ b, o.map.binding? ⟨p, name, .types⟩ = some b ∧ b.isModuleOrEnum = true

/-- Either a duplicate was told, or all modules and enums have their names. -/
def NamedOrTold (o : Outline) : Prop := o.duplicates ≠ [] ∨ Named o

namespace NamedOrTold

theorem quiet (h : NamedOrTold o) (hq : Quiet o o') (htree : o'.map.tree = o.map.tree) :
    NamedOrTold o' := by
  unfold NamedOrTold Named
  rw [hq.duplicates, htree]
  simp only [hq.binding?]
  exact h

theorem refuse (o : Outline) (slot : Slot) : NamedOrTold (o.refuse slot) := by
  refine Or.inl ?_
  rw [duplicates_refuse]
  exact List.append_ne_nil_of_right_ne_nil _ (List.cons_ne_nil _ _)

/-- A slot that is free has no module yet, and one that is not is told. -/
theorem declareSlot (h : NamedOrTold o) {slot : Slot} (hm : slot.module.index < o.map.scopes.size)
    (b : Binding) : NamedOrTold (o.declareSlot slot b) := by
  cases hbound : o.map.binding? slot with
  | some old =>
    unfold Outline.declareSlot
    rw [hbound]
    exact refuse o slot
  | none =>
    have htold : (o.declareSlot slot b).duplicates = o.duplicates := by
      rw [duplicates_declareSlot, hbound]
      exact List.append_nil _
    refine h.imp (fun htold' => by rwa [htold]) fun hnamed p name child hchild => ?_
    rw [(declareSlot_sized o slot b).1] at hchild
    obtain ⟨b', hb', hkind⟩ := hnamed p name child hchild
    refine ⟨b', ?_, hkind⟩
    rw [binding?_declareSlot hm, hb']
    rfl

theorem declare (h : NamedOrTold o) (hm : m.index < o.map.scopes.size) (name : Name)
    (meaning : Meaning) : NamedOrTold (o.declare m name meaning) := by
  unfold Outline.declare
  induction meaning.toList generalizing o with
  | nil => exact h
  | cons entry entries ih =>
    refine ih (h.declareSlot hm entry.2) ?_
    rw [(declareSlot_sized o _ _).2]
    exact hm

theorem declareLeaf (h : NamedOrTold o) (hat : At o m) (name : Name) (visibility : Visibility)
    (shape : NamespaceSet) : NamedOrTold (o.declareLeaf m name visibility shape) :=
  h.declare (by rw [hat.sound.sized]; exact hat.inside) name _

theorem declareVariants (h : NamedOrTold o) (hat : At o m) {visibility : Visibility}
    (hv : visibility.isVisibleFrom o.map.tree m = true) (variants : List Variant) :
    NamedOrTold (o.declareVariants m visibility variants) := by
  unfold Outline.declareVariants
  induction variants generalizing o with
  | nil => exact h
  | cons variant variants ih =>
    rw [List.foldl_cons]
    cases variant.name with
    | none =>
      have hsteps : Steps o (o.skip m .enumVariant) := overlooks_steps.skip o m rfl
      exact ih (h.quiet (Quiet.overlooks.skip o m rfl) rfl) (hat.steps hsteps)
        (hat.visible hsteps hv)
    | some name =>
      have hsteps := declareLeaf_steps name variant.fields.namespaces hat hv
      exact ih (h.declareLeaf hat name visibility _) (hat.steps hsteps) (hat.visible hsteps hv)

/-- A module or an enum that comes in is bound to its name, or the name was bound and is told. -/
theorem openChild? (h : NamedOrTold o) (hsized : o.map.scopes.size = o.map.tree.size) {name : Name}
    {visibility : Visibility} {kind : ModuleKind} {child : LocalId}
    (hopen : o.openChild? m name visibility kind = some (o', child)) : NamedOrTold o' := by
  rw [Outline.openChild?, Option.map_eq_some_iff] at hopen
  obtain ⟨⟨map, child'⟩, hadd, heq⟩ := hopen
  cases heq
  have hgrown := CrateMap.grown_of_addChild? hadd
  obtain ⟨hsame, hduplicates⟩ := quiet_addChild? o hadd
  have hm : m.index < map.scopes.size := by
    have := hgrown.inside
    have := CrateMap.size_scopes_addChild? hadd
    omega
  change NamedOrTold (({ o with map } : Outline).declareSlot ⟨m, name, .types⟩
    (map.moduleBinding child visibility))
  cases hbound : map.binding? ⟨m, name, .types⟩ with
  | some old =>
    unfold Outline.declareSlot
    rw [hbound]
    exact refuse _ _
  | none =>
    have htold : (({ o with map } : Outline).declareSlot ⟨m, name, .types⟩
        (map.moduleBinding child visibility)).duplicates = o.duplicates := by
      rw [duplicates_declareSlot, hbound, ← hduplicates]
      exact List.append_nil _
    refine h.imp (fun htold' => by rwa [htold]) fun hnamed p n c hc => ?_
    rw [(declareSlot_sized _ _ _).1, hgrown.child?] at hc
    rw [binding?_declareSlot hm]
    split at hc
    · next heq =>
      obtain ⟨rfl, rfl⟩ := heq
      refine ⟨map.moduleBinding child visibility, ?_, rfl⟩
      rw [hbound, if_pos rfl]
      rfl
    · obtain ⟨b, hb, hkind⟩ := hnamed p n c hc
      refine ⟨b, ?_, hkind⟩
      rw [hsame, hb]
      rfl

end NamedOrTold

mutual

/-- On the walk over the contents of a module no name is lost without being told. -/
theorem addBody_named {o : Outline} {m : LocalId} {chain : List Name} (h : AtModule o m chain)
    (hnamed : NamedOrTold o) : (body : ModuleBody) → NamedOrTold (addBody o m chain body)
  | ⟨items, uses, externCrates⟩ => by
    have hsteps := directives_steps h uses externCrates
    have hquiet := Quiet.overlooks.directives m chain o uses externCrates
    rw [addBody]
    exact addItems_named (h.steps hsteps)
      (hnamed.quiet hquiet (overlooksImports_tree.directives m chain o uses externCrates)) items

theorem addItems_named {o : Outline} {m : LocalId} {chain : List Name} (h : AtModule o m chain)
    (hnamed : NamedOrTold o) : (items : List Item) → NamedOrTold (addItems o m chain items)
  | [] => hnamed
  | item :: items => by
    rw [addItems]
    exact addItems_named (h.steps (addItem_steps h item)) (addItem_named h hnamed item) items

theorem addItem_named {o : Outline} {m : LocalId} {chain : List Name} (h : AtModule o m chain)
    (hnamed : NamedOrTold o) : (item : Item) → NamedOrTold (addItem o m chain item)
  | ⟨none, mark, kind⟩ => hnamed.quiet (Quiet.overlooks.skip o m rfl) rfl
  | ⟨some name, mark, kind⟩ => by
    obtain ⟨hsteps, hv⟩ := judge_spec h.toAt chain mark name
    rw [addItem]
    have hjudged := hnamed.quiet (Quiet.overlooks.judge o m chain mark name)
      (overlooksImports_tree.judge o m chain mark name)
    exact addKind_named (h.steps hsteps) hjudged name (h.visible hsteps hv) kind

theorem addKind_named {o : Outline} {m : LocalId} {chain : List Name} (h : AtModule o m chain)
    (hnamed : NamedOrTold o) (name : Name) {visibility : Visibility}
    (hv : visibility.isVisibleFrom o.map.tree m = true) :
    (kind : ItemKind) → NamedOrTold (addKind o m chain name visibility kind)
  | .module body => by
    rw [addKind]
    split
    · exact NamedOrTold.refuse o _
    · next o' child hopen =>
      obtain ⟨-, hinner⟩ := openModule_steps h hv hopen
      exact addBody_named hinner (hnamed.openChild? h.sound.sized hopen) body
  | .enum variants => by
    rw [addKind]
    split
    · exact NamedOrTold.refuse o _
    · next o' child hopen =>
      obtain ⟨-, hchild, -, -, hvc⟩ := openChild?_steps h hv hopen
      exact (hnamed.openChild? h.sound.sized hopen).declareVariants hchild hvc variants
  | .macroRules true => hnamed.declareLeaf ⟨h.sound, o.map.tree.size_pos⟩ name _ _
  | .macroRules false => hnamed.declareLeaf h.toAt name _ _
  | .struct _ => hnamed.declareLeaf h.toAt name _ _
  | .union => hnamed.declareLeaf h.toAt name _ _
  | .trait => hnamed.declareLeaf h.toAt name _ _
  | .typeAlias => hnamed.declareLeaf h.toAt name _ _
  | .function => hnamed.declareLeaf h.toAt name _ _
  | .const => hnamed.declareLeaf h.toAt name _ _
  | .static => hnamed.declareLeaf h.toAt name _ _

end

/-- In the outline of a crate all modules and enums have their names, unless a duplicate was
told. -/
theorem named_ofBody (id : CrateId) (crate : String) (edition : Edition)
    (names : Listing Name ModuleId) (body : ModuleBody)
    (h : (ofBody (.initial id crate edition names) body).duplicates = []) :
    Named (ofBody (.initial id crate edition names) body) := by
  have hinitial : NamedOrTold { map := .initial id crate edition names } := by
    refine Or.inr fun p name child hchild => ?_
    change (ModuleTree.singleton id).child? p name = some child at hchild
    rw [ModuleTree.child?_singleton] at hchild
    cases hchild
  exact (addBody_named (atModule_initial id crate edition names) hinitial body).resolve_left
    fun htold => htold h

end Outline

/-! ### What was told stays told -/

namespace Collection

variable {imports : List Import} {start c c' : Collection}

theorem Move.diagnostics_prefix (h : Move imports c c') :
    c.map.diagnostics <+: c'.map.diagnostics := by
  cases h with
  | told log => exact List.prefix_rfl
  | changed hi h =>
    obtain ⟨clashes, heq, -⟩ := h.clashed
    exact ⟨clashes, heq.symm⟩
  | recorded x => exact List.prefix_rfl
  | givenUp i => exact List.prefix_append _ _

/-- Nothing that was told before any import is taken back. -/
theorem Course.diagnostics_prefix {limit : Nat} {past : List Collection}
    {hand : Option SettledImport} (hcoherent : Coherent imports start)
    (h : Course limit imports start past hand c) : start.map.diagnostics <+: c.map.diagnostics :=
  (h.related (R := fun a b => a.map.diagnostics <+: b.map.diagnostics) (fun _ => List.prefix_rfl)
    (fun _ _ _ => List.IsPrefix.trans) (fun _ _ _ hab => hab.diagnostics_prefix) hcoherent).1

end Collection

/-! ### From inside of a module -/

namespace View

variable {view : View} {m : LocalId}

/-- Every module and enum of the crate is bound to its name where it stands, and may be named
there. -/
def Signposted (view : View) : Prop :=
  ∀ p name child, view.tree.child? p name = some child →
    ∃ b, view.own.binding? ⟨p, name, .types⟩ = some b ∧ b.isModuleOrEnum = true ∧
      b.path = view.tree.pathOf child ∧ b.visibility.isVisibleFrom view.tree p = true

/-- A view is signposted if its crate was, before any import. -/
theorem Signposted.of_named {o : Outline} (hnamed : o.Named) (horderly : o.Orderly)
    (htree : view.tree = o.map.tree)
    (hbound : ∀ slot b, o.map.binding? slot = some b → view.own.binding? slot = some b) :
    view.Signposted := by
  intro p name child hchild
  rw [htree] at hchild ⊢
  obtain ⟨b, hb, hkind⟩ := hnamed p name child hchild
  have hfits := horderly.fits _ b hb
  refine ⟨b, hbound _ b hb, hkind, ?_, hfits.visible⟩
  rw [hfits.path, horderly.tree.pathOf_child p name child hchild]

/-- What is bound in a module of the crate is found inside of it by whoever may name it. -/
theorem resolve_child_own {path : Path} (hbegin : path.HasBeginning) {use : PathUse}
    {host : Binding} (hhost : view.Hosts m path use host) {p : LocalId}
    (hinside : view.locate? host.path = some (view.tree.global p)) {name : Name} {ns : Namespace}
    {b : Binding} (hb : view.own.binding? ⟨p, name, ns⟩ = some b)
    (hvisible : b.visibility.isVisibleFrom view.tree m = true) :
    (view.resolve m (path.child name) use).meaning.get ns = some b ∧
      (view.resolve m (path.child name) use).settled = true ∧
      (view.resolve m (path.child name) use).leavesCrate
        = (view.resolve m path use).leavesCrate := by
  have hget : (view.resolve m (path.child name) use).meaning.get ns = some b := by
    rw [resolve_child_of_hosts hbegin hhost hinside, Meaning.visible, Meaning.get_filterVisibility,
      get_meaning_own rfl]
    exact Option.filter_eq_some_iff.2 ⟨hb, hvisible⟩
  refine ⟨hget, ?_⟩
  obtain ⟨host', hhost', hsettled, hleaves⟩ :=
    flags_resolve_child hbegin (Meaning.ne_empty_of_get hget)
  obtain rfl := Option.some.inj (hhost.1.symm.trans hhost'.1)
  have hown : host.path.crate = view.crate := (crate_of_locate? hinside).symm
  rw [hown, bne_self_eq_false, Bool.or_false] at hleaves
  exact ⟨hsettled, hleaves⟩

/-- From inside of a module its own path stands for it, and stays in the crate. -/
theorem hosts_encloser (h : view.Signposted) (hregular : view.tree.Regular)
    (htied : view.tree.Tied) (hm : m.index < view.tree.size) (use : PathUse) {a : LocalId}
    (ha : a ∈ view.tree.ancestors m) :
    ∃ host, view.Hosts m ⟨.crate, (view.tree.pathOf a).segments⟩ use host ∧
      host.path = view.tree.pathOf a ∧
      (view.resolve m ⟨.crate, (view.tree.pathOf a).segments⟩ use).leavesCrate = false := by
  have hunified := hregular.unified htied
  induction a using ModuleTree.ancestors.induct (t := view.tree) with
  | case1 a hp =>
    have hlt := ModuleTree.lt_size_of_mem_ancestors hm ha
    obtain rfl := hregular.eq_root_of_parent? htied hlt hp
    rw [hregular.root]
    refine ⟨view.moduleBinding (view.tree.global .root), ⟨rfl, ?_⟩, ?_, rfl⟩
    · rw [moduleBinding_of_mapOf? (mapOf?_own view)]
      rfl
    · rw [moduleBinding_of_mapOf? (mapOf?_own view)]
      exact hregular.root
  | case2 a p hp ih =>
    -- The way to the module is the way to the one around it, and its name there.
    have hlt := ModuleTree.lt_size_of_mem_ancestors hm ha
    have hpm := ModuleTree.ancestors_trans (ModuleTree.parent_mem_ancestors hp) ha
    obtain ⟨name, hchild, hpath⟩ := hregular.pathOf_parent? htied hlt hp
    obtain ⟨outer, houter, houterPath, hstays⟩ := ih hpm
    obtain ⟨b, hb, hkind, hbpath, hvisible⟩ := h p name a hchild
    have hinside : view.locate? outer.path = some (view.tree.global p) := by
      rw [houterPath]
      exact hunified.locate? view rfl p (ModuleTree.lt_size_of_mem_ancestors hm hpm)
    have hbegin : Path.HasBeginning ⟨.crate, (view.tree.pathOf p).segments⟩ := Or.inr (Or.inl rfl)
    obtain ⟨hget, -, hleaves⟩ := resolve_child_own hbegin houter hinside hb
      (Visibility.isVisibleFrom_inside hpm hvisible)
    rw [hpath, ItemPath.segments_child]
    exact ⟨b, ⟨hget, hkind⟩, hbpath.trans hpath, hleaves.trans hstays⟩

/-- A module finds what is bound in it at its own path and the name. -/
theorem resolve_own (h : view.Signposted) (hregular : view.tree.Regular) (htied : view.tree.Tied)
    {slot : Slot} (hm : slot.module.index < view.tree.size) {b : Binding}
    (hb : view.own.binding? slot = some b)
    (hvisible : b.visibility.isVisibleFrom view.tree slot.module = true) (use : PathUse) :
    let r := view.resolve slot.module
      ⟨.crate, ((view.tree.pathOf slot.module).child slot.name).segments⟩ use
    r.meaning.get slot.space = some b ∧ r.settled = true ∧ r.leavesCrate = false := by
  obtain ⟨host, hhost, hpath, hstays⟩ :=
    hosts_encloser h hregular htied hm use (view.tree.mem_ancestors_self slot.module)
  have hinside : view.locate? host.path = some (view.tree.global slot.module) := by
    rw [hpath]
    exact (hregular.unified htied).locate? view rfl slot.module hm
  rw [ItemPath.segments_child]
  obtain ⟨hget, hsettled, hleaves⟩ :=
    resolve_child_own (Or.inr (Or.inl rfl)) hhost hinside hb hvisible
  exact ⟨hget, hsettled, hleaves.trans hstays⟩

end View

/-! ### Declared items -/

/-- What is declared stays bound in a build, the tree stays that of the outline, and what was told
stays told. -/
theorem Collection.Course.keeps_outline {g : CrateGraph} {id : CrateId} {crate : CrateSource}
    {finished : CrateId → Option CrateMap} {settings : Settings} {start c : Collection}
    {imports : List Import} {limit : Nat} {past : List Collection} {hand : Option SettledImport}
    (hcrate : g.crate? id = some crate)
    (hopen : openBuild g id crate finished settings = .ok (start, imports))
    (hcourse : Course limit imports start past hand c) :
    ∃ names, g.outline? settings id = some (crate.outline id settings names) ∧
      c.tree = (crate.outline id settings names).map.tree ∧
      (∀ slot b, (crate.outline id settings names).map.binding? slot = some b →
        c.map.binding? slot = some b) ∧
      (crate.outline id settings names).map.diagnostics <+: c.map.diagnostics := by
  have hopened := opened_of_openBuild hopen
  have hkeeps := (hcourse.keeps hopened.coherent).1
  obtain ⟨names, houtline, hbegins⟩ := outline?_of_openBuild hcrate hopen
  refine ⟨names, houtline, hkeeps.tree.trans hbegins.tree, fun slot b hb => ?_, ?_⟩
  · rw [← hbegins.bound] at hb
    exact (hkeeps.firm slot b ⟨hb, by rw [hopened.globSources]; rfl⟩).1
  · rw [← hbegins.told]
    exact hcourse.diagnostics_prefix hopened.coherent

/-- **Declared items are found at their own paths.**  Let a crate be built, and let no duplicate be
told of it.  Whatever imports the crate has, a path from the root with the names of a declared item
means in the module of the declaration, in the namespace of the declaration, the item as it was
declared.  This is final, and the path does not leave the crate. -/
theorem declared_items_are_found_at_their_paths {g : CrateGraph} {id : CrateId}
    {finished : CrateId → Option CrateMap} {settings : Settings} {isCancelled : Nat → Bool}
    {built : Built} (h : buildView g id finished settings isCancelled = .ok built)
    (hunique : ∀ d ∈ built.view.own.diagnostics, d.isDuplicate = false) :
    ∃ o, g.outline? settings id = some o ∧ ∀ slot b, o.map.binding? slot = some b → ∀ use,
      (built.view.resolve slot.module ⟨.crate, b.path.segments⟩ use).meaning.get slot.space
        = some b ∧
      (built.view.resolve slot.module ⟨.crate, b.path.segments⟩ use).settled = true ∧
      (built.view.resolve slot.module ⟨.crate, b.path.segments⟩ use).leavesCrate = false := by
  obtain ⟨crate, start, imports, past, outcome, hcrate, hopen, hcourse, rfl⟩ :=
    course_of_buildView h
  rw [view_closeBuild] at hunique ⊢
  obtain ⟨names, houtline, htree, hbound, htold⟩ := hcourse.keeps_outline hcrate hopen
  have hview := (hcourse.orderly (opened_of_openBuild hopen)).own
  have horderly := (CrateGraph.orderly_outline? houtline).1
  have htied : outcome.collection.view.tree.Tied := by
    rw [show outcome.collection.view.tree = _ from htree]
    exact (Outline.tied_of_steps (Outline.ofBody_steps ..)).2
  have hduplicates : (crate.outline id settings names).duplicates = [] := by
    refine List.filter_eq_nil_iff.2 fun d hd => ?_
    rw [hunique d (htold.subset hd)]
    exact Bool.false_ne_true
  have hsigns : outcome.collection.view.Signposted :=
    .of_named (Outline.named_ofBody _ _ _ _ _ hduplicates) horderly htree hbound
  refine ⟨crate.outline id settings names, houtline, fun slot b hb use => ?_⟩
  have hfits := horderly.fits slot b hb
  rw [← show outcome.collection.view.tree = _ from htree] at hfits
  rw [hfits.path]
  exact View.resolve_own hsigns hview.regular htied (hview.mem_tree (hbound slot b hb))
    (hbound slot b hb) hfits.visible use

/-- In the small crate each module reads all names from the other one, and the struct is still found
where it is declared. -/
theorem declared_items_are_found_at_their_paths_mirrors : ∃ built b,
    buildView mirrorsGraph ⟨0⟩ (fun _ => none) {} (fun _ => false) = .ok built ∧
    built.view.own.diagnostics = [] ∧ b.path = ⟨⟨0⟩, ["a", "S"]⟩ ∧ b.visibility = .everywhere ∧
    (built.view.resolve ⟨1⟩ ⟨.crate, ["a", "S"]⟩ .inImport).meaning.get .types = some b ∧
    (built.view.resolve ⟨1⟩ ⟨.crate, ["a", "S"]⟩ .inImport).settled = true ∧
    (built.view.resolve ⟨1⟩ ⟨.crate, ["a", "S"]⟩ .inImport).leavesCrate = false := by
  have hnothing : (buildView mirrorsGraph ⟨0⟩ (fun _ => none) {} (fun _ => false)).map
      (fun built => built.view.own.diagnostics) = .ok [] := by cbv
  have hdeclared : (mirrorsGraph.outline? {} ⟨0⟩).bind (fun o => o.map.binding? ⟨⟨1⟩, "S", .types⟩)
      = some ⟨⟨⟨0⟩, ["a", "S"]⟩, .everywhere, false⟩ := by cbv
  obtain ⟨built, hbuilt, hdiagnostics⟩ := ok_of_map hnothing
  have hunique : ∀ d ∈ built.view.own.diagnostics, d.isDuplicate = false := by
    rw [hdiagnostics]
    exact fun d hd => absurd hd List.not_mem_nil
  obtain ⟨o, ho, hfound⟩ := declared_items_are_found_at_their_paths hbuilt hunique
  rw [ho] at hdeclared
  exact ⟨built, _, hbuilt, hdiagnostics, rfl, rfl, hfound ⟨⟨1⟩, "S", .types⟩ _ hdeclared .inImport⟩

end CrateScope
