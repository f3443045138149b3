import CrateScope.Proofs.Accounting

/-!
# Uses in another order

A crate is written with its `use` declarations in another order in each of its modules.  The walk
over its item tree then finds the same modules and declarations, and the same imports in another
order: those of a `use` change places within their module, while every `extern crate` keeps its
place among the others.  So all that differs in the state in which the imports begin to be carried
out is the order of what was reported.

## Main definitions

* `ModuleBody.Reordered`, `CrateSource.Reordered`, `CrateGraph.Reordered` — an item tree, a crate
  and a graph with the `use` declarations of each module in another order.
* `Outline.SameMap` — two outlines of which the maps differ only in what was reported.

## Main results

* `Outline.sameMap_addBody` — item trees that differ in that order have the same modules and
  declarations.
* `traversed_reordered` — the walk visits bodies with the same `extern crate` declarations, and with
  the same `use` declarations in another order.
* `openBuild_reordered` — what a build of the other crate begins with.
-/

namespace CrateScope

/-! ### Item trees in another order -/

mutual

/-- The second body is the first one with the `use` declarations of each module in some order. -/
inductive ModuleBody.Reordered : ModuleBody → ModuleBody → Prop
  | intro {items items' : List Item} {uses uses' : List UseLeaf} {externCrates : List ExternCrate}
      (hitems : Item.AllReordered items items') (huses : uses.Perm uses') :
      ModuleBody.Reordered ⟨items, uses, externCrates⟩ ⟨items', uses', externCrates⟩

/-- The same of each of some items. -/
inductive Item.AllReordered : List Item → List Item → Prop
  | nil : Item.AllReordered [] []
  | cons {item item' : Item} {items items' : List Item} (hitem : Item.Reordered item item')
      (hitems : Item.AllReordered items items') :
      Item.AllReordered (item :: items) (item' :: items')

/-- The same of an item.  Only a module has `use` declarations inside. -/
inductive Item.Reordered : Item → Item → Prop
  | module {name : Option Name} {mark : WrittenVisibility} {body body' : ModuleBody}
      (hbody : ModuleBody.Reordered body body') :
      Item.Reordered ⟨name, mark, .module body⟩ ⟨name, mark, .module body'⟩
  | leaf {item : Item} (hleaf : ∀ body, item.kind ≠ .module body) : Item.Reordered item item

end

/-- The second crate is the first one with the `use` declarations of each module in some order. -/
structure CrateSource.Reordered (crate crate' : CrateSource) : Prop where
  name : crate'.name = crate.name
  edition : crate'.edition = crate.edition
  root : crate.root.Reordered crate'.root
  dependencies : crate'.dependencies = crate.dependencies

/-! ### The graph -/

namespace CrateGraph

variable {g g' : CrateGraph}

/-- The second graph has the crates of the first one, each with the `use` declarations of each
module in some order. -/
def Reordered (g g' : CrateGraph) : Prop := List.Forall₂ CrateSource.Reordered g.crates g'.crates

namespace Reordered

variable (h : g.Reordered g')

include h

theorem ids : g'.ids = g.ids := by
  unfold CrateGraph.ids size
  rw [List.Forall₂.length_eq h]

theorem idOf? (name : String) : g'.idOf? name = g.idOf? name := by
  have hfind : ∀ crates crates', List.Forall₂ CrateSource.Reordered crates crates' →
      crates'.findIdx? (fun crate => crate.name == name)
        = crates.findIdx? (fun crate => crate.name == name) := by
    intro crates crates' hcrates
    induction hcrates with
    | nil => rfl
    | cons hcrate _ ih => rw [List.findIdx?_cons, List.findIdx?_cons, hcrate.name, ih]
  unfold CrateGraph.idOf?
  rw [hfind _ _ h]

/-- A crate has a number in both graphs or in none. -/
theorem crate? (id : CrateId) : Option.Rel CrateSource.Reordered (g.crate? id) (g'.crate? id) := by
  have hget : ∀ crates crates', List.Forall₂ CrateSource.Reordered crates crates' →
      ∀ i : Nat, Option.Rel CrateSource.Reordered crates[i]? crates'[i]? := by
    intro crates crates' hcrates
    induction hcrates with
    | nil => exact fun i => .none
    | cons hcrate _ ih =>
      intro i
      cases i with
      | zero => exact .some hcrate
      | succ i => exact ih i
  exact hget _ _ h id.index

theorem nameOf (id : CrateId) : g'.nameOf id = g.nameOf id := by
  have hcrate := h.crate? id
  unfold CrateGraph.nameOf
  generalize g.crate? id = crate, g'.crate? id = crate' at hcrate ⊢
  cases hcrate with
  | none => rfl
  | some hcrate => exact hcrate.name

theorem dependencies (id : CrateId) : g'.dependencies id = g.dependencies id := by
  have hcrate := h.crate? id
  unfold CrateGraph.dependencies
  generalize g.crate? id = crate, g'.crate? id = crate' at hcrate ⊢
  cases hcrate with
  | none => rfl
  | some hcrate => simp only [hcrate.name, hcrate.dependencies, h.idOf?]

theorem reach (start : CrateId) (fresh found stack : List CrateId) :
    g'.reach start fresh found stack = g.reach start fresh found stack := by
  induction fresh, found, stack using reach.induct start with
  | case1 fresh found => rw [CrateGraph.reach, CrateGraph.reach]
  | case2 fresh found rest =>
    rw [CrateGraph.reach, CrateGraph.reach, if_pos rfl, if_pos rfl, h.nameOf]
  | case3 fresh found crate rest hne hfresh ih =>
    rw [CrateGraph.reach, CrateGraph.reach, if_neg hne, if_neg hne, dif_pos hfresh, dif_pos hfresh,
      h.dependencies]
    simp only [ih]
  | case4 fresh found crate rest hne hfresh ih =>
    rw [CrateGraph.reach, CrateGraph.reach, if_neg hne, if_neg hne, dif_neg hfresh, dif_neg hfresh]
    exact ih

theorem transitiveDependencies (id : CrateId) :
    g'.transitiveDependencies id = g.transitiveDependencies id := by
  unfold CrateGraph.transitiveDependencies
  simp only [h.dependencies, h.ids, h.reach]

theorem dependencyMaps (id : CrateId) (name : String) (finished : CrateId → Option CrateMap) :
    dependencyMaps g' id name finished = dependencyMaps g id name finished := by
  unfold CrateScope.dependencyMaps
  simp only [h.transitiveDependencies, h.nameOf]

theorem directNames (id : CrateId) : directNames g' id = directNames g id := by
  unfold CrateScope.directNames
  rw [h.dependencies]
  cases g.dependencies id with
  | error e => rfl
  | ok direct =>
    refine congrArg Except.ok (List.foldl_ext _ _ _ fun names dependency _ => ?_)
    have hcrate := h.crate? dependency
    generalize g.crate? dependency = crate, g'.crate? dependency = crate' at hcrate ⊢
    cases hcrate with
    | none => rfl
    | some hcrate => simp only [hcrate.name]

end Reordered

end CrateGraph

/-! ### The same map -/

namespace Outline

variable {o o' : Outline} {m : LocalId} {chain : List Name}

/-- The maps of two outlines differ only in what was reported. -/
def SameMap (o o' : Outline) : Prop :=
  ∃ diagnostics, o'.map = { o.map with diagnostics }

namespace SameMap

theorem symm (h : SameMap o o') : SameMap o' o := by
  obtain ⟨diagnostics, h⟩ := h
  exact ⟨o.map.diagnostics, by rw [h]⟩

/-- What tells or reports something only, or queues an import, leaves the map the same. -/
theorem overlooks : OverlooksImports (fun _ => false) SameMap where
  refl o := ⟨o.map.diagnostics, rfl⟩
  trans h h' := by
    obtain ⟨diagnostics, h⟩ := h
    obtain ⟨diagnostics', h'⟩ := h'
    exact ⟨diagnostics', by rw [h', h]⟩
  tell o _ _ := ⟨o.map.diagnostics, rfl⟩
  diagnose _ _ _ := ⟨_, rfl⟩
  unresolved _ _ _ := rfl
  enqueue o _ := ⟨o.map.diagnostics, rfl⟩
  incomplete _ _ := rfl

/-- Two outlines with the same map have the same one after something that is overlooked in each. -/
theorem congr {a a' : Outline} (h : SameMap o o') (ha : SameMap o a) (ha' : SameMap o' a') :
    SameMap a a' :=
  overlooks.trans (overlooks.trans ha.symm h) ha'

theorem skip (h : SameMap o o') (m : LocalId) (what : Incomplete) :
    SameMap (o.skip m what) (o'.skip m what) :=
  h.congr (overlooks.skip o m rfl) (overlooks.skip o' m rfl)

theorem refuse (h : SameMap o o') (slot : Slot) : SameMap (o.refuse slot) (o'.refuse slot) :=
  h.congr (overlooks.refuse o slot rfl) (overlooks.refuse o' slot rfl)

theorem judge (h : SameMap o o') (m : LocalId) (chain : List Name) (mark : WrittenVisibility)
    (name : Name) : SameMap (o.judge m chain mark name).1 (o'.judge m chain mark name).1 :=
  h.congr (overlooks.judge o m chain mark name) (overlooks.judge o' m chain mark name)

/-- Two loops with the same rounds keep maps the same. -/
theorem foldl_congr {α : Type} {f : Outline → α → Outline}
    (hf : ∀ o o' a, SameMap o o' → SameMap (f o a) (f o' a)) (as : List α) (h : SameMap o o') :
    SameMap (as.foldl f o) (as.foldl f o') := by
  induction as generalizing o o' with
  | nil => exact h
  | cons a as ih => exact ih (hf o o' a h)

theorem judge_snd (h : SameMap o o') (mark : WrittenVisibility) (name : Name) :
    (o'.judge m chain mark name).2 = (o.judge m chain mark name).2 := by
  obtain ⟨diagnostics, h⟩ := h
  refine judge_snd_congr o o' ?_ ?_ (fun text => ?_) mark name
  · rw [h]
  · rw [h]
  · rw [h]
    rfl

theorem declareSlot (h : SameMap o o') (slot : Slot) (b : Binding) :
    SameMap (o.declareSlot slot b) (o'.declareSlot slot b) := by
  obtain ⟨diagnostics, heq⟩ := h
  have hbinding : o'.map.binding? slot = o.map.binding? slot := by
    rw [heq]
    rfl
  unfold Outline.declareSlot
  rw [hbinding]
  cases o.map.binding? slot with
  | none =>
    refine ⟨diagnostics, ?_⟩
    simp only [heq]
    rfl
  | some old => exact SameMap.refuse ⟨diagnostics, heq⟩ slot

theorem declare (h : SameMap o o') (name : Name) (meaning : Meaning) :
    SameMap (o.declare m name meaning) (o'.declare m name meaning) :=
  foldl_congr (fun _ _ entry ho => ho.declareSlot ⟨m, name, entry.1⟩ entry.2) _ h

theorem declareLeaf (h : SameMap o o') (name : Name) (visibility : Visibility)
    (shape : NamespaceSet) :
    SameMap (o.declareLeaf m name visibility shape) (o'.declareLeaf m name visibility shape) := by
  have htree : o'.map.tree = o.map.tree := by
    obtain ⟨diagnostics, heq⟩ := h
    rw [heq]
  unfold Outline.declareLeaf
  rw [htree]
  exact h.declare name _

theorem declareVariants (h : SameMap o o') (visibility : Visibility) (variants : List Variant) :
    SameMap (o.declareVariants m visibility variants)
      (o'.declareVariants m visibility variants) := by
  refine foldl_congr (fun a a' variant ha => ?_) variants h
  split
  · exact ha.skip m _
  · exact ha.declareLeaf _ _ _

/-- A module comes into both maps, with the same number, or into none. -/
theorem openChild? (h : SameMap o o') (name : Name) (visibility : Visibility) (kind : ModuleKind) :
    (o.openChild? m name visibility kind = none ∧ o'.openChild? m name visibility kind = none) ∨
      ∃ a a' child, o.openChild? m name visibility kind = some (a, child) ∧
        o'.openChild? m name visibility kind = some (a', child) ∧ SameMap a a' := by
  obtain ⟨diagnostics, heq⟩ := h
  unfold Outline.openChild? CrateMap.addChild?
  rw [heq]
  cases o.map.tree.addChild? m name kind with
  | none => exact Or.inl ⟨rfl, rfl⟩
  | some grown =>
    obtain ⟨tree, child⟩ := grown
    refine Or.inr ⟨_, _, child, rfl, rfl, ?_⟩
    exact declare ⟨diagnostics, rfl⟩ name _

end SameMap

/-! ### The walk -/

theorem sameMap_addKind_leaf (h : SameMap o o') (name : Name) (visibility : Visibility)
    (kind : ItemKind) (hleaf : ∀ body, kind ≠ .module body) :
    SameMap (addKind o m chain name visibility kind) (addKind o' m chain name visibility kind) := by
  cases kind with
  | module body => exact absurd rfl (hleaf body)
  | enum variants =>
    rw [addKind, addKind]
    rcases h.openChild? name visibility .enum with
      ⟨hopen, hopen'⟩ | ⟨a, a', child, hopen, hopen', ha⟩
    · rw [hopen, hopen']
      exact h.refuse _
    · rw [hopen, hopen']
      exact ha.declareVariants visibility variants
  | macroRules exported =>
    cases exported with
    | true => exact h.declareLeaf name _ _
    | false => exact h.declareLeaf name visibility _
  | struct | union | trait | typeAlias | function | const | static =>
    exact h.declareLeaf name visibility _

mutual

/-- Item trees that differ in the order of their `use` declarations have the same modules and
declarations. -/
theorem sameMap_addBody {body body' : ModuleBody} {o o' : Outline} {m : LocalId}
    {chain : List Name} (h : SameMap o o') :
    body.Reordered body' → SameMap (addBody o m chain body) (addBody o' m chain body')
  | @ModuleBody.Reordered.intro _ _ uses uses' externCrates hitems _ => by
    have hdirectives := SameMap.overlooks.directives m chain
    rw [addBody, addBody]
    exact sameMap_addItems
      (h.congr (hdirectives o uses externCrates) (hdirectives o' uses' externCrates)) hitems

theorem sameMap_addItems {items items' : List Item} {o o' : Outline} {m : LocalId}
    {chain : List Name} (h : SameMap o o') :
    Item.AllReordered items items' → SameMap (addItems o m chain items) (addItems o' m chain items')
  | .nil => by
    rw [addItems, addItems]
    exact h
  | .cons hitem hitems => by
    rw [addItems, addItems]
    exact sameMap_addItems (sameMap_addItem h hitem) hitems

theorem sameMap_addItem {item item' : Item} {o o' : Outline} {m : LocalId}
    {chain : List Name} (h : SameMap o o') :
    item.Reordered item' → SameMap (addItem o m chain item) (addItem o' m chain item')
  | @Item.Reordered.module none _ _ _ _ => by
    rw [addItem, addItem]
    exact h.skip m _
  | @Item.Reordered.module (some name) mark body body' hbody => by
    have hjudged := h.judge m chain mark name
    rw [addItem, addItem]
    simp only
    rw [h.judge_snd mark name, addKind, addKind]
    rcases hjudged.openChild? name (o.judge m chain mark name).2 .module with
      ⟨hopen, hopen'⟩ | ⟨a, a', child, hopen, hopen', ha⟩
    · rw [hopen, hopen']
      exact hjudged.refuse _
    · rw [hopen, hopen']
      exact sameMap_addBody ha hbody
  | @Item.Reordered.leaf ⟨none, _, _⟩ _ => by
    rw [addItem, addItem]
    exact h.skip m _
  | @Item.Reordered.leaf ⟨some name, mark, kind⟩ hleaf => by
    have hjudged := h.judge m chain mark name
    rw [addItem, addItem]
    simp only
    rw [h.judge_snd mark name]
    exact sameMap_addKind_leaf hjudged name _ kind hleaf

end

/-! ### What is visited -/

/-- Two bodies that are visited are in the same place, and differ in the order of their `use`
declarations and in what is inside. -/
structure SameVisit (visited visited' : List Name × ModuleBody) : Prop where
  path : visited'.1 = visited.1
  uses : visited.2.uses.Perm visited'.2.uses
  externCrates : visited'.2.externCrates = visited.2.externCrates

theorem opens?_reordered {item item' : Item} (h : item.Reordered item') :
    item'.opens? = item.opens? := by
  cases h with
  | module hbody => rfl
  | leaf hleaf => rfl

mutual

/-- The walk visits the bodies in the same places. -/
theorem traversed_reordered (path : List Name) {body body' : ModuleBody} :
    body.Reordered body' → List.Forall₂ SameVisit (body.traversed path) (body'.traversed path)
  | @ModuleBody.Reordered.intro _ _ uses uses' externCrates hitems huses => by
    rw [ModuleBody.traversed, ModuleBody.traversed]
    exact .cons ⟨rfl, huses, rfl⟩ (traversedAll_reordered path [] hitems)

theorem traversedAll_reordered (path taken : List Name) {items items' : List Item} :
    Item.AllReordered items items' → List.Forall₂ SameVisit
      (Item.traversedAll path taken items) (Item.traversedAll path taken items')
  | .nil => by
    rw [Item.traversedAll]
    exact .nil
  | .cons hitem hitems => by
    rw [Item.traversedAll, Item.traversedAll, opens?_reordered hitem]
    exact List.rel_append (traversedItem_reordered path taken hitem)
      (traversedAll_reordered path _ hitems)

theorem traversedItem_reordered (path taken : List Name) {item item' : Item} :
    item.Reordered item' →
      List.Forall₂ SameVisit (item.traversed path taken) (item'.traversed path taken)
  | @Item.Reordered.module none _ _ _ _ => .nil
  | @Item.Reordered.module (some name) _ _ _ hbody => by
    rw [Item.traversed, Item.traversed]
    split
    · exact .nil
    · exact traversed_reordered _ hbody
  | @Item.Reordered.leaf item hleaf => by
    rw [traversed_eq_nil hleaf]
    exact .nil

end

end Outline

/-! ### The imports -/

/-- What becomes of a directive does not depend on what was reported. -/
theorem Directive.fate_diagnostics (map : CrateMap) (diagnostics : List Diagnostic) (m : LocalId)
    (directive : Directive) : directive.fate { map with diagnostics } m = directive.fate map m := by
  have hjudged : ∀ mark name,
      CrateMap.judged { map with diagnostics } m mark name = map.judged m mark name :=
    Outline.judge_snd_congr { map } { map := { map with diagnostics } } rfl rfl fun _ => rfl
  cases directive with
  | use leaf => simp only [fate, UseLeaf.fate, hjudged]
  | externCrate declaration => simp only [fate, ExternCrate.fate, hjudged]

/-- A leaf of a `use` becomes a glob or the import of a name. -/
theorem UseLeaf.kind_of_fate {map : CrateMap} {m : LocalId} {leaf : UseLeaf} {i : Import}
    (h : (leaf.fate map m).import? = some i) :
    i.kind = if (Outline.globForm leaf).2 then .glob else .named := by
  unfold fate at h
  split at h
  next text isGlob hform =>
    rw [hform]
    split at h
    · cases h
    · split at h
      · next hglob =>
        cases h
        exact (if_pos hglob).symm
      · next hnamed =>
        split at h
        · cases h
        · simp only at h
          split at h
          · cases h
          · cases h
            exact (if_neg hnamed).symm

theorem ExternCrate.kind_of_fate {map : CrateMap} {m : LocalId} {declaration : ExternCrate}
    {i : Import} (h : (declaration.fate map m).import? = some i) :
    i.kind = .externCrate declaration.macroUse := by
  unfold fate at h
  split at h
  · cases h
  · cases h
    rfl

section Directives

variable {visited visited' : List (List Name × ModuleBody)}
  (h : List.Forall₂ Outline.SameVisit visited visited') (map : CrateMap)

include h

/-- The directives of the bodies that are visited are the same in another order. -/
theorem directives_perm : (map.directives visited).Perm (map.directives visited') := by
  induction h with
  | nil => exact .refl _
  | cons hvisit _ ih =>
    unfold CrateMap.directives ModuleBody.directives at ih ⊢
    rw [List.flatMap_cons, List.flatMap_cons, hvisit.path, hvisit.externCrates]
    exact (((hvisit.uses.map _).append_right _).map _).append ih

/-- The `extern crate` declarations among them are in the same order. -/
theorem filterMap_directives {β : Type} {f : LocalId × Directive → Option β}
    (hf : ∀ m leaf, f (m, .use leaf) = none) :
    (map.directives visited').filterMap f = (map.directives visited).filterMap f := by
  have huses : ∀ (m : LocalId) (uses : List UseLeaf),
      ((uses.map Directive.use).map (m, ·)).filterMap f = [] := by
    intro m uses
    rw [List.map_map, List.filterMap_map, List.filterMap_eq_nil_iff]
    exact fun leaf _ => hf m leaf
  induction h with
  | nil => rfl
  | cons hvisit _ ih =>
    unfold CrateMap.directives ModuleBody.directives at ih ⊢
    rw [List.flatMap_cons, List.flatMap_cons, List.filterMap_append, List.filterMap_append, ih,
      List.map_append, List.map_append, List.filterMap_append, List.filterMap_append, huses, huses,
      hvisit.path, hvisit.externCrates]

end Directives

/-! ### The state before any import -/

/-- The prelude does not depend on what was reported. -/
theorem findPrelude_withDiagnostics (view : View) (diagnostics : List Diagnostic) (text : String) :
    findPrelude (view.withDiagnostics diagnostics) text = findPrelude view text := by
  unfold findPrelude
  simp only [View.locate?_withDiagnostics]
  rfl

/-- What is prepared for a crate is the view of its outline, in which only the prelude is set. -/
theorem view_prepare (crate : CrateSource) (id : CrateId) (edition : Edition)
    (names : Listing Name ModuleId) (maps : Listing CrateId CrateMap) (settings : Settings) :
    let o := Outline.ofBody (.initial id crate.name edition names) crate.root
    (prepare crate id edition names maps settings).1.view
        = ⟨{ o.map with prelude := settings.prelude.elim o.map.prelude fun text =>
            (findPrelude ⟨o.map, maps⟩ text).1 }, maps⟩ ∧
      (prepare crate id edition names maps settings).1.directCrates = o.map.externPrelude := by
  unfold prepare
  cases settings.prelude with
  | none => exact ⟨rfl, rfl⟩
  | some text => exact ⟨rfl, rfl⟩

section Opening

variable {g g' : CrateGraph} {id : CrateId} {crate crate' : CrateSource}
  {finished : CrateId → Option CrateMap} {settings : Settings} {start start' : Collection}
  {imports imports' : List Import}

/-- A build begins with the view of the outline of the crate, in which only the prelude is set. -/
theorem view_openBuild (hopen : openBuild g id crate finished settings = .ok (start, imports)) :
    ∃ maps names, dependencyMaps g id crate.name finished = .ok maps ∧
      directNames g id = .ok names ∧ ∀ o, o = crate.outline id settings names →
        start.view = ⟨{ o.map with prelude := settings.prelude.elim o.map.prelude fun text =>
            (findPrelude ⟨o.map, maps⟩ text).1 }, maps⟩ ∧
          start.directCrates = o.map.externPrelude := by
  obtain ⟨maps, hmaps, hopen⟩ := ok_of_bind hopen
  obtain ⟨names, hnames, hopen⟩ := ok_of_bind hopen
  refine ⟨maps, names, ok_of_mapError hmaps, ok_of_mapError hnames, ?_⟩
  rintro o rfl
  obtain ⟨hview, hdirect⟩ := view_prepare crate id (crate.edition.getD settings.edition) names maps
    settings
  generalize prepare crate id (crate.edition.getD settings.edition) names maps settings = opened
    at hopen hview hdirect
  cases hopen
  exact ⟨hview, hdirect⟩

/-- A build of the crate in another order begins with the same view but for what was reported. -/
theorem view_openBuild_reordered (hgraph : g.Reordered g') (hcrate : crate.Reordered crate')
    (hopen : openBuild g id crate finished settings = .ok (start, imports))
    (hopen' : openBuild g' id crate' finished settings = .ok (start', imports')) :
    (∃ diagnostics, start'.view = start.view.withDiagnostics diagnostics) ∧
      start'.directCrates = start.directCrates := by
  obtain ⟨maps, names, hmaps, hnames, hview⟩ := view_openBuild hopen
  obtain ⟨maps', names', hmaps', hnames', hview'⟩ := view_openBuild hopen'
  rw [hgraph.dependencyMaps, hcrate.name, hmaps] at hmaps'
  rw [hgraph.directNames, hnames] at hnames'
  cases hmaps'
  cases hnames'
  have hsame : Outline.SameMap (crate.outline id settings names)
      (crate'.outline id settings names) := by
    unfold CrateSource.outline
    rw [hcrate.name, hcrate.edition]
    exact Outline.sameMap_addBody (Outline.SameMap.overlooks.refl _) hcrate.root
  obtain ⟨hview, hdirect⟩ := hview _ rfl
  obtain ⟨hview', hdirect'⟩ := hview' _ rfl
  generalize crate.outline id settings names = o at hview hdirect hsame
  generalize crate'.outline id settings names = o' at hview' hdirect' hsame
  obtain ⟨diagnostics, hmap⟩ := hsame
  have hprelude : ∀ text, findPrelude ⟨{ o.map with diagnostics }, maps⟩ text
      = findPrelude ⟨o.map, maps⟩ text :=
    findPrelude_withDiagnostics ⟨o.map, maps⟩ diagnostics
  rw [hview, hview', hdirect, hdirect', hmap]
  simp only [hprelude]
  exact ⟨⟨diagnostics, rfl⟩, trivial⟩

/-- It has the same imports in another order, in which every `extern crate` keeps its place among
the others. -/
theorem imports_openBuild_reordered (hgraph : g.Reordered g') (hcrate : crate.Reordered crate')
    (hopen : openBuild g id crate finished settings = .ok (start, imports))
    (hopen' : openBuild g' id crate' finished settings = .ok (start', imports')) :
    imports.Perm imports' ∧ ∀ {β : Type} (f : Import → Option β),
      (∀ i : Import, i.kind = .glob ∨ i.kind = .named → f i = none) →
        imports'.filterMap f = imports.filterMap f := by
  obtain ⟨⟨diagnostics, hview⟩, -⟩ := view_openBuild_reordered hgraph hcrate hopen hopen'
  obtain ⟨-, himports, -⟩ := takes_openBuild hopen
  obtain ⟨-, himports', -⟩ := takes_openBuild hopen'
  have hvisits := Outline.traversed_reordered [] hcrate.root
  have hmap : start'.map = { start.map with diagnostics } := congrArg View.own hview
  have hfate : ∀ entry : LocalId × Directive, (entry.2.fate start'.map entry.1).import?
      = (entry.2.fate start.map entry.1).import? := by
    intro entry
    rw [hmap, Directive.fate_diagnostics]
  have hdirectives : ∀ bodies, start'.map.directives bodies = start.map.directives bodies := by
    intro bodies
    rw [hmap]
    rfl
  simp only [hfate, hdirectives] at himports'
  rw [himports, himports']
  refine ⟨(directives_perm hvisits start.map).filterMap _, fun f hf => ?_⟩
  rw [List.filterMap_filterMap, List.filterMap_filterMap]
  refine filterMap_directives hvisits start.map fun m leaf => ?_
  refine Option.bind_eq_none_iff.2 fun i hi => hf i ?_
  have hfate : (leaf.fate start.map m).import? = some i := hi
  rw [UseLeaf.kind_of_fate hfate]
  split
  · exact Or.inl rfl
  · exact Or.inr rfl

/-- Without globs in the bodies that are visited there are none among the imports. -/
theorem kind_ne_glob_of_openBuild
    (hopen : openBuild g id crate finished settings = .ok (start, imports))
    (hglob : ∀ visited ∈ crate.root.traversed [], ∀ leaf ∈ visited.2.uses,
      (Outline.globForm leaf).2 = false) : ∀ i ∈ imports, i.kind ≠ .glob := by
  obtain ⟨-, himports, -⟩ := takes_openBuild hopen
  intro i hi
  rw [himports, List.mem_filterMap] at hi
  obtain ⟨⟨m, directive⟩, hmem, hfate⟩ := hi
  obtain ⟨visited, hvisited, hmem⟩ := List.mem_flatMap.1 hmem
  obtain ⟨directive', hdirective, heq⟩ := List.mem_map.1 hmem
  obtain ⟨-, rfl⟩ := Prod.mk.inj heq
  cases directive' with
  | use leaf =>
    have hleaf : leaf ∈ visited.2.uses := by
      simpa [ModuleBody.directives] using hdirective
    have hkind : (leaf.fate start.map m).import? = some i := hfate
    rw [UseLeaf.kind_of_fate hkind, hglob visited hvisited leaf hleaf]
    exact ImportKind.noConfusion
  | externCrate declaration =>
    have hkind : (declaration.fate start.map m).import? = some i := hfate
    rw [ExternCrate.kind_of_fate hkind]
    exact ImportKind.noConfusion

end Opening

end CrateScope
