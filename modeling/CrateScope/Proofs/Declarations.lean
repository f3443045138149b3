import CrateScope.Proofs.Growth
import CrateScope.Proofs.Overlooking
import CrateScope.Proofs.Placement
import Mathlib.Logic.Relation

/-!
# What the walk over an item tree does

The walk over an item tree adds modules, declares names and queues imports.  Each of these is one
step here, with what is certain when it is taken; what all steps keep holds of the outline of every
crate.

## Main definitions

* `Binding.Fits` — a binding can be declared in a slot.
* `Outline.Step` — one step of the walk.
* `Outline.Sound` — every declaration and every import may be named in the module in which it
  stands.
* `Outline.At`, `Outline.AtModule` — what the walk can rely on where it is.
* `Outline.Visits` — what the walk comes to do, and where.

## Main results

* `Outline.addBody_steps` — the walk is made of such steps.
* `Outline.Visits.steps_ready` — wherever it comes, what it relies on is so.
* `Outline.sound_ofBody` — the outline of a crate is sound.
-/

namespace CrateScope

open Relation

/-! ### Who may name what -/

namespace Visibility

variable {t t' : ModuleTree} {m : LocalId} {visibility : Visibility}

theorem isVisibleFrom_within {a : LocalId} (h : a ∈ t.ancestors m) :
    (within (t.global a)).isVisibleFrom t m = true := by
  simp only [isVisibleFrom, ModuleTree.global, beq_self_eq_true, Bool.true_and,
    ModuleTree.encloses_iff]
  exact h

theorem isVisibleFrom_iff : visibility.isVisibleFrom t m = true ↔
    visibility = .everywhere ∨ ∃ a ∈ t.ancestors m, visibility = .within (t.global a) := by
  cases visibility with
  | everywhere => simp [isVisibleFrom]
  | within scope =>
    obtain ⟨crate, a⟩ := scope
    simp only [isVisibleFrom, ModuleTree.global, Bool.and_eq_true, beq_iff_eq,
      ModuleTree.encloses_iff, reduceCtorEq, false_or, within.injEq, ModuleId.mk.injEq]
    constructor
    · rintro ⟨rfl, ha⟩
      exact ⟨a, ha, rfl, rfl⟩
    · rintro ⟨_, ha, rfl, rfl⟩
      exact ⟨rfl, ha⟩

theorem isPublic_iff : visibility.isPublic = true ↔ visibility = .everywhere := by
  cases visibility with
  | everywhere => simp [isPublic]
  | within scope => simp [isPublic]

/-- What everyone may name may be named from any module. -/
theorem isVisibleFrom_of_isPublic (h : visibility.isPublic = true) :
    visibility.isVisibleFrom t m = true := by
  rw [isPublic_iff.1 h]
  rfl

/-- Inside a module everything may be named that the module itself may name. -/
theorem isVisibleFrom_inside {outer : LocalId} (h : outer ∈ t.ancestors m)
    (hv : visibility.isVisibleFrom t outer = true) : visibility.isVisibleFrom t m = true := by
  rw [isVisibleFrom_iff] at hv ⊢
  rcases hv with rfl | ⟨a, ha, rfl⟩
  · exact Or.inl rfl
  · exact Or.inr ⟨a, ModuleTree.ancestors_trans ha h, rfl⟩

/-- What a module may name does not change when the tree grows. -/
theorem isVisibleFrom_extends (h : t.Extends t') (hm : m.index < t.size) :
    visibility.isVisibleFrom t' m = visibility.isVisibleFrom t m := by
  cases visibility with
  | everywhere => rfl
  | within scope =>
    simp only [isVisibleFrom, ModuleTree.encloses, h.crate, h.ancestors hm]

end Visibility

/-- A binding can be declared in a slot of a tree: its visibility counts in the module of the slot,
its path is that of the name in this module, and what has names inside is a type and has a module of
its own there. -/
structure Binding.Fits (t : ModuleTree) (slot : Slot) (b : Binding) : Prop where
  visible : b.visibility.isVisibleFrom t slot.module = true
  path : b.path = (t.pathOf slot.module).child slot.name
  inside : b.isModuleOrEnum = true → slot.space = .types ∧ (t.child? slot.module slot.name).isSome

theorem Binding.Fits.extends {t t' : ModuleTree} {slot : Slot} {b : Binding} (h : b.Fits t slot)
    (he : t.Extends t') (hm : slot.module.index < t.size) : b.Fits t' slot where
  visible := by rw [Visibility.isVisibleFrom_extends he hm]; exact h.visible
  path := by rw [he.pathOf _ hm]; exact h.path
  inside hb := by
    obtain ⟨hspace, hchild⟩ := h.inside hb
    obtain ⟨child, hchild⟩ := Option.isSome_iff_exists.1 hchild
    exact ⟨hspace, by rw [he.child? _ _ _ hchild]; rfl⟩

namespace Outline

variable {o o' : Outline} {m : LocalId} {chain : List Name}

/-! ### Steps of the walk -/

/-- One step of the walk: something is told or recorded, a slot that is free is declared with a
binding that fits there, a module is added inside of a module that is no enum, or an import of such
a module is queued. -/
inductive Step (o : Outline) : Outline → Prop
  | told (log : Log) (diagnostics : List Diagnostic) :
      Step o { o with log, map := { o.map with diagnostics } }
  | declared {slot : Slot} {b : Binding} (hr : slot.module.index < o.map.tree.size)
      (hfree : o.map.binding? slot = none) (hfits : b.Fits o.map.tree slot) :
      Step o { o with map := o.map.bind slot b }
  | opened {parent child : LocalId} {name : Name} {kind : ModuleKind} {map : CrateMap}
      (h : o.map.addChild? parent name kind = some (map, child))
      (hparent : o.map.tree.kind? parent = some .module) : Step o { o with map }
  | queued {i : Import} (hr : i.module.index < o.map.tree.size)
      (hv : i.visibility.isVisibleFrom o.map.tree i.module = true)
      (hmodule : o.map.tree.kind? i.module = some .module) : Step o (o.enqueue i)

/-- Every module has a scope and lies below the root, and each declaration and each import may be
named in the module in which it stands. -/
structure Sound (o : Outline) : Prop where
  sized : o.map.scopes.size = o.map.tree.size
  rooted : o.map.tree.Rooted
  bindings : ∀ slot b, o.map.binding? slot = some b →
    b.visibility.isVisibleFrom o.map.tree slot.module = true
  imports : ∀ i ∈ o.imports, i.module.index < o.map.tree.size ∧
    i.visibility.isVisibleFrom o.map.tree i.module = true

theorem Sound.mem_tree (hs : Sound o) {slot : Slot} {b : Binding}
    (hb : o.map.binding? slot = some b) : slot.module.index < o.map.tree.size := by
  rw [← hs.sized]
  exact CrateMap.lt_size_of_binding? hb

/-- What the walk never touches stays, and the tree only grows. -/
structure Later (o o' : Outline) : Prop where
  tree : o.map.tree.Extends o'.map.tree
  externPrelude : o'.map.externPrelude = o.map.externPrelude
  macroPrelude : o'.map.macroPrelude = o.map.macroPrelude
  prelude : o'.map.prelude = o.map.prelude

theorem Later.refl (o : Outline) : Later o o := ⟨.refl _, rfl, rfl, rfl⟩

theorem Later.trans {o'' : Outline} (h : Later o o') (h' : Later o' o'') : Later o o'' where
  tree := h.tree.trans h'.tree
  externPrelude := h'.externPrelude.trans h.externPrelude
  macroPrelude := h'.macroPrelude.trans h.macroPrelude
  prelude := h'.prelude.trans h.prelude

theorem Step.later (h : Step o o') : Later o o' := by
  cases h with
  | told => exact ⟨.refl _, rfl, rfl, rfl⟩
  | declared => exact ⟨.refl _, rfl, rfl, rfl⟩
  | opened h =>
    have hmap := (CrateMap.eq_of_addChild? h).2
    exact ⟨(CrateMap.grown_of_addChild? h).extension, by rw [hmap], by rw [hmap], by rw [hmap]⟩
  | queued => exact ⟨.refl _, rfl, rfl, rfl⟩

theorem Step.sound (hs : Sound o) (h : Step o o') : Sound o' := by
  cases h with
  | told => exact ⟨hs.sized, hs.rooted, hs.bindings, hs.imports⟩
  | @declared slot b hr hfree hfits =>
    refine ⟨?_, hs.rooted, ?_, hs.imports⟩
    · rw [CrateMap.size_scopes_bind]
      exact hs.sized
    · intro t b' hb
      rw [CrateMap.binding?_bind _ (hs.sized ▸ hr)] at hb
      split at hb
      · next heq =>
        cases hb
        rw [heq]
        exact hfits.visible
      · exact hs.bindings t b' hb
  | @opened parent child name kind map h =>
    have hgrown := CrateMap.grown_of_addChild? h
    have hext := hgrown.extension
    refine ⟨by rw [CrateMap.size_scopes_addChild? h, hgrown.size, hs.sized], ?_, ?_, ?_⟩
    · intro m hm
      rcases hgrown.lt_or_eq hm with hlt | rfl
      · rw [hext.ancestors hlt]
        exact hs.rooted m hlt
      · -- The new module lies directly below one that was there already.
        rw [ModuleTree.ancestors_of_parent? hgrown.parent?, hext.ancestors hgrown.inside]
        exact List.mem_cons_of_mem _ (hs.rooted parent hgrown.inside)
    · intro slot b hb
      rw [CrateMap.binding?_addChild? h] at hb
      rw [Visibility.isVisibleFrom_extends hext (hs.mem_tree hb)]
      exact hs.bindings slot b hb
    · intro i hi
      obtain ⟨hlt, hv⟩ := hs.imports i hi
      exact ⟨Nat.lt_of_lt_of_le hlt hext.size, by rwa [Visibility.isVisibleFrom_extends hext hlt]⟩
  | @queued i hr hv =>
    refine ⟨hs.sized, hs.rooted, hs.bindings, fun j hj => ?_⟩
    rcases List.mem_append.1 hj with hj | hj
    · exact hs.imports j hj
    · rw [List.mem_singleton.1 hj]
      exact ⟨hr, hv⟩

/-- Some steps of the walk. -/
abbrev Steps : Outline → Outline → Prop := ReflTransGen Step

theorem Steps.later (h : Steps o o') : Later o o' := by
  induction h with
  | refl => exact Later.refl o
  | tail _ hstep ih => exact ih.trans hstep.later

theorem Steps.sound (hs : Sound o) (h : Steps o o') : Sound o' := by
  induction h with
  | refl => exact hs
  | tail _ hstep ih => exact hstep.sound ih

/-- The walk is in the module `m` of a sound outline. -/
structure At (o : Outline) (m : LocalId) : Prop where
  sound : Sound o
  inside : m.index < o.map.tree.size

theorem At.steps (h : At o m) (hsteps : Steps o o') : At o' m :=
  ⟨hsteps.sound h.sound, Nat.lt_of_lt_of_le h.inside hsteps.later.tree.size⟩

/-- The walk is in a module of a sound outline that is no enum, and the names that it has gone along
are those of the path of this module. -/
structure AtModule (o : Outline) (m : LocalId) (chain : List Name) : Prop extends At o m where
  kind : o.map.tree.kind? m = some .module
  path : (o.map.tree.pathOf m).segments = chain

theorem AtModule.steps (h : AtModule o m chain) (hsteps : Steps o o') : AtModule o' m chain where
  toAt := h.toAt.steps hsteps
  kind := by rw [hsteps.later.tree.kind? m h.inside]; exact h.kind
  path := by rw [hsteps.later.tree.pathOf m h.inside]; exact h.path

theorem At.visible {visibility : Visibility} (h : At o m) (hsteps : Steps o o')
    (hv : visibility.isVisibleFrom o.map.tree m = true) :
    visibility.isVisibleFrom o'.map.tree m = true := by
  rwa [Visibility.isVisibleFrom_extends hsteps.later.tree h.inside]

/-- A loop is made of steps if each of its rounds is. -/
theorem foldl_steps {α : Type} {P : Outline → Prop} {f : Outline → α → Outline} {as : List α}
    (hf : ∀ o, P o → ∀ a ∈ as, Steps o (f o a)) (hP : ∀ o o', P o → Steps o o' → P o')
    (ho : P o) : Steps o (as.foldl f o) := by
  induction as generalizing o with
  | nil => exact .refl
  | cons a as ih =>
    have hfirst := hf o ho a List.mem_cons_self
    exact hfirst.trans (ih (fun o ho a ha => hf o ho a (List.mem_cons_of_mem _ ha))
      (hP o _ ho hfirst))

/-! ### Declarations -/

/-- To tell or record something is a step, so what is overlooked by every question is made of
steps. -/
theorem overlooks_steps : Overlooks (fun _ => false) Steps where
  refl _ := .refl
  trans := ReflTransGen.trans
  tell _ _ _ := .single (.told _ _)
  diagnose _ _ _ := .single (.told _ _)
  unresolved _ _ _ := rfl

theorem mem_ancestors_of_restrictionScope? {map : CrateMap} {text : String} {scope : LocalId}
    (h : map.restrictionScope? m chain text = some scope) : scope ∈ map.tree.ancestors m := by
  simp only [CrateMap.restrictionScope?, Option.bind_eq_bind, Option.bind_eq_some_iff] at h
  obtain ⟨path, -, target, -, h⟩ := h
  exact ModuleTree.mem_ancestors_of_encloser? h

/-- The visibility that is read from a mark counts in the module in which the mark stands. -/
theorem judge_spec (h : At o m) (chain : List Name) (mark : WrittenVisibility) (name : Name) :
    Steps o (o.judge m chain mark name).1 ∧
      (o.judge m chain mark name).2.isVisibleFrom o.map.tree m = true := by
  refine ⟨overlooks_steps.judge o m chain mark name, ?_⟩
  unfold judge
  cases mark with
  | pub => rfl
  | unmarked | pubSelf =>
    exact Visibility.isVisibleFrom_within (ModuleTree.mem_ancestors_self _ m)
  | pubCrate => exact Visibility.isVisibleFrom_within (h.sound.rooted m h.inside)
  | pubSuper =>
    simp only
    split
    · next parent hp =>
      exact Visibility.isVisibleFrom_within (ModuleTree.parent_mem_ancestors hp)
    · rfl
  | pubIn text =>
    simp only
    split
    · next scope hscope =>
      exact Visibility.isVisibleFrom_within (mem_ancestors_of_restrictionScope? hscope)
    · rfl

theorem declareSlot_steps {slot : Slot} {b : Binding} (h : At o slot.module)
    (hfits : b.Fits o.map.tree slot) : Steps o (o.declareSlot slot b) := by
  unfold declareSlot
  split
  · next hfree => exact .single (.declared h.inside hfree hfits)
  · exact overlooks_steps.refuse o slot rfl

theorem declare_steps (name : Name) (meaning : Meaning) (h : At o m)
    (hfits : ∀ ns b, meaning.get ns = some b → b.Fits o.map.tree ⟨m, name, ns⟩) :
    Steps o (o.declare m name meaning) := by
  refine foldl_steps (P := fun o' => At o' m ∧ ∀ ns b, meaning.get ns = some b →
    b.Fits o'.map.tree ⟨m, name, ns⟩) ?_ ?_ ⟨h, hfits⟩
  · rintro o' ⟨h', hfits'⟩ ⟨space, b⟩ hb
    exact declareSlot_steps h' (hfits' space b (Collection.mem_toList.1 hb))
  · rintro o₁ o₂ ⟨h₁, hfits₁⟩ hsteps
    exact ⟨h₁.steps hsteps, fun ns b hb => (hfits₁ ns b hb).extends hsteps.later.tree h₁.inside⟩

theorem declareLeaf_steps (name : Name) {visibility : Visibility} (shape : NamespaceSet)
    (h : At o m) (hv : visibility.isVisibleFrom o.map.tree m = true) :
    Steps o (o.declareLeaf m name visibility shape) := by
  refine declare_steps _ _ h fun ns b hb => ?_
  rw [Meaning.get_ofShape] at hb
  split at hb
  · cases hb
    exact ⟨hv, rfl, fun h => by cases h⟩
  · cases hb

theorem declareVariants_steps {visibility : Visibility} (variants : List Variant) (h : At o m)
    (hv : visibility.isVisibleFrom o.map.tree m = true) :
    Steps o (o.declareVariants m visibility variants) := by
  refine foldl_steps (P := fun o' => At o' m ∧ visibility.isVisibleFrom o'.map.tree m = true)
    ?_ ?_ ⟨h, hv⟩
  · rintro o' ⟨h', hv'⟩ variant -
    split
    · exact overlooks_steps.skip o' m rfl
    · exact declareLeaf_steps _ _ h' hv'
  · rintro o₁ o₂ ⟨h₁, hv₁⟩ hsteps
    exact ⟨h₁.steps hsteps, h₁.visible hsteps hv₁⟩

/-- Opening a module or an enum leads into it, and what may be named around it may be named
inside. -/
theorem openChild?_steps {name : Name} {visibility : Visibility} {kind : ModuleKind}
    {child : LocalId} (h : AtModule o m chain) (hv : visibility.isVisibleFrom o.map.tree m = true)
    (ho : o.openChild? m name visibility kind = some (o', child)) :
    Steps o o' ∧ At o' child ∧ o'.map.tree.kind? child = some kind ∧
      (o'.map.tree.pathOf child).segments = chain ++ [name] ∧
      visibility.isVisibleFrom o'.map.tree child = true := by
  rw [openChild?, Option.map_eq_some_iff] at ho
  obtain ⟨⟨map, child'⟩, hmap, he⟩ := ho
  cases he
  have hopened : Steps o { o with map } := .single (.opened hmap h.kind)
  have hm : At { o with map } m := h.toAt.steps hopened
  have hvm := h.visible hopened hv
  have hgrown := CrateMap.grown_of_addChild? hmap
  have hdeclared := declare_steps name (.only .types (map.moduleBinding child visibility)) hm ?_
  · have hchild : At { o with map } child :=
      ⟨hm.sound, by have := hgrown.number; have := hgrown.size; simp only; omega⟩
    refine ⟨hopened.trans hdeclared, hchild.steps hdeclared, ?_, ?_, hchild.visible hdeclared ?_⟩
    · rw [hdeclared.later.tree.kind? child hchild.inside]
      exact hgrown.kind?
    · rw [hdeclared.later.tree.pathOf child hchild.inside]
      change (map.tree.pathOf child).segments = _
      rw [hgrown.pathOf, ItemPath.segments_child, h.path]
    · exact Visibility.isVisibleFrom_inside (ModuleTree.parent_mem_ancestors hgrown.parent?) hvm
  · intro ns b hb
    rw [Meaning.only, Meaning.get_set, Meaning.get_empty] at hb
    split at hb
    · next hns =>
      cases hb
      refine ⟨hvm, ?_, fun _ => ⟨hns, ?_⟩⟩
      · change map.tree.pathOf child = (map.tree.pathOf m).child name
        rw [hgrown.pathOf, hgrown.extension.pathOf m h.inside]
      · change (map.tree.child? m name).isSome
        rw [hgrown.child?, if_pos ⟨rfl, rfl⟩]
        rfl
    · cases hb

/-- Opening a module leads into a module. -/
theorem openModule_steps {name : Name} {visibility : Visibility} {child : LocalId}
    (h : AtModule o m chain) (hv : visibility.isVisibleFrom o.map.tree m = true)
    (ho : o.openChild? m name visibility .module = some (o', child)) :
    Steps o o' ∧ AtModule o' child (chain ++ [name]) := by
  obtain ⟨hsteps, hat, hkind, hpath, -⟩ := openChild?_steps h hv ho
  exact ⟨hsteps, hat, hkind, hpath⟩

/-! ### Imports -/

theorem enqueue_steps {i : Import} (h : AtModule o i.module chain)
    (hv : i.visibility.isVisibleFrom o.map.tree i.module = true) : Steps o (o.enqueue i) :=
  .single (.queued h.inside hv h.kind)

/-- Judging a mark and queuing an import with the visibility that it gives. -/
theorem enqueue_judge_steps (h : AtModule o m chain) (mark : WrittenVisibility) (judged : Name)
    (path : Path) (name : Option Name) (kind : ImportKind) :
    Steps o ((o.judge m chain mark judged).1.enqueue
      { module := m, path, name, visibility := (o.judge m chain mark judged).2, kind }) := by
  obtain ⟨hsteps, hvisible⟩ := judge_spec h.toAt chain mark judged
  exact hsteps.trans (enqueue_steps (h.steps hsteps) (h.visible hsteps hvisible))

theorem addUse_steps (h : AtModule o m chain) (leaf : UseLeaf) :
    Steps o (addUse m chain o leaf) := by
  unfold addUse
  simp only
  split
  · exact overlooks_steps.skip o m rfl
  · split
    · exact enqueue_judge_steps h _ _ _ _ _
    · split
      · exact overlooks_steps.skip o m rfl
      · split
        · exact overlooks_steps.tell o _ _
        · exact enqueue_judge_steps h _ _ _ _ _

theorem addExternCrate_steps (h : AtModule o m chain) (declaration : ExternCrate) :
    Steps o (addExternCrate m chain o declaration) := by
  unfold addExternCrate
  split
  · exact overlooks_steps.skip o m rfl
  · exact enqueue_judge_steps h _ _ _ _ _

theorem uses_steps (h : AtModule o m chain) (leaves : List UseLeaf) :
    Steps o (leaves.foldl (addUse m chain) o) :=
  foldl_steps (P := fun o => AtModule o m chain) (fun _ ho leaf _ => addUse_steps ho leaf)
    (fun _ _ ho hsteps => ho.steps hsteps) h

theorem externCrates_steps (h : AtModule o m chain) (declarations : List ExternCrate) :
    Steps o (declarations.foldl (addExternCrate m chain) o) :=
  foldl_steps (P := fun o => AtModule o m chain)
    (fun _ ho declaration _ => addExternCrate_steps ho declaration)
    (fun _ _ ho hsteps => ho.steps hsteps) h

theorem directives_steps (h : AtModule o m chain) (uses : List UseLeaf)
    (externCrates : List ExternCrate) :
    Steps o (externCrates.foldl (addExternCrate m chain) (uses.foldl (addUse m chain) o)) :=
  have huses := uses_steps h uses
  huses.trans (externCrates_steps (h.steps huses) externCrates)

/-! ### The walk -/

mutual

/-- The walk over the contents of a module is made of steps. -/
theorem addBody_steps {o : Outline} {m : LocalId} {chain : List Name} (h : AtModule o m chain) :
    (body : ModuleBody) → Steps o (addBody o m chain body)
  | ⟨items, uses, externCrates⟩ => by
    have hdirectives := directives_steps h uses externCrates
    rw [addBody]
    exact hdirectives.trans (addItems_steps (h.steps hdirectives) items)

theorem addItems_steps {o : Outline} {m : LocalId} {chain : List Name} (h : AtModule o m chain) :
    (items : List Item) → Steps o (addItems o m chain items)
  | [] => .refl
  | item :: items => by
    have hitem := addItem_steps h item
    rw [addItems]
    exact hitem.trans (addItems_steps (h.steps hitem) items)

theorem addItem_steps {o : Outline} {m : LocalId} {chain : List Name} (h : AtModule o m chain) :
    (item : Item) → Steps o (addItem o m chain item)
  | ⟨none, _, _⟩ => by
    rw [addItem]
    exact overlooks_steps.skip o m rfl
  | ⟨some name, mark, kind⟩ => by
    obtain ⟨hsteps, hv⟩ := judge_spec h.toAt chain mark name
    rw [addItem]
    exact hsteps.trans (addKind_steps (h.steps hsteps) name (h.visible hsteps hv) kind)

theorem addKind_steps {o : Outline} {m : LocalId} {chain : List Name} (h : AtModule o m chain)
    (name : Name) {visibility : Visibility} (hv : visibility.isVisibleFrom o.map.tree m = true) :
    (kind : ItemKind) → Steps o (addKind o m chain name visibility kind)
  | .module body => by
    rw [addKind]
    split
    · exact overlooks_steps.refuse o _ rfl
    · next o' child ho =>
      obtain ⟨hsteps, hinner⟩ := openModule_steps h hv ho
      exact hsteps.trans (addBody_steps hinner body)
  | .enum variants => by
    rw [addKind]
    split
    · exact overlooks_steps.refuse o _ rfl
    · next o' child ho =>
      obtain ⟨hsteps, hchild, -, -, hvc⟩ := openChild?_steps h hv ho
      exact hsteps.trans (declareVariants_steps variants hchild hvc)
  | .macroRules true => by
    rw [addKind]
    -- An exported macro is declared in the root, wherever it stands.
    exact declareLeaf_steps name _ ⟨h.sound, o.map.tree.size_pos⟩ rfl
  | .macroRules false => declareLeaf_steps name _ h.toAt hv
  | .struct _ => declareLeaf_steps name _ h.toAt hv
  | .union => declareLeaf_steps name _ h.toAt hv
  | .trait => declareLeaf_steps name _ h.toAt hv
  | .typeAlias => declareLeaf_steps name _ h.toAt hv
  | .function => declareLeaf_steps name _ h.toAt hv
  | .const => declareLeaf_steps name _ h.toAt hv
  | .static => declareLeaf_steps name _ h.toAt hv

end

/-! ### Where the walk comes to -/

/-- What the walk over an item tree has to do in a module.  Where there can be marks to judge, it
brings along the names on the way to the module. -/
inductive Task where
  | body (chain : List Name) (body : ModuleBody)
  | uses (chain : List Name) (leaves : List UseLeaf)
  | externCrates (chain : List Name) (declarations : List ExternCrate)
  | items (chain : List Name) (items : List Item)
  | item (chain : List Name) (item : Item)
  | kind (chain : List Name) (name : Name) (visibility : Visibility) (kind : ItemKind)
  | variants (visibility : Visibility) (variants : List Variant)

/-- The names that the walk brings along. -/
def Task.chain? : Task → Option (List Name)
  | .body chain _ => some chain
  | .uses chain _ => some chain
  | .externCrates chain _ => some chain
  | .items chain _ => some chain
  | .item chain _ => some chain
  | .kind chain _ _ _ => some chain
  | .variants _ _ => none

/-- Whatever the walk over a body comes to do, with the outline as it is then and the module in
which it is to be done. -/
inductive Visits (map : CrateMap) (body : ModuleBody) : Outline → LocalId → Task → Prop
  | start : Visits map body { map } .root (.body [] body)
  | uses {o : Outline} {m : LocalId} {chain : List Name} {inner : ModuleBody}
      (h : Visits map body o m (.body chain inner)) : Visits map body o m (.uses chain inner.uses)
  | use {o : Outline} {m : LocalId} {chain : List Name} {leaf : UseLeaf} {leaves : List UseLeaf}
      (h : Visits map body o m (.uses chain (leaf :: leaves))) :
      Visits map body (addUse m chain o leaf) m (.uses chain leaves)
  | externCrates {o : Outline} {m : LocalId} {chain : List Name} {inner : ModuleBody}
      (h : Visits map body o m (.body chain inner)) :
      Visits map body (inner.uses.foldl (addUse m chain) o) m
        (.externCrates chain inner.externCrates)
  | externCrate {o : Outline} {m : LocalId} {chain : List Name} {declaration : ExternCrate}
      {declarations : List ExternCrate}
      (h : Visits map body o m (.externCrates chain (declaration :: declarations))) :
      Visits map body (addExternCrate m chain o declaration) m (.externCrates chain declarations)
  | items {o : Outline} {m : LocalId} {chain : List Name} {inner : ModuleBody}
      (h : Visits map body o m (.body chain inner)) :
      Visits map body (inner.externCrates.foldl (addExternCrate m chain)
        (inner.uses.foldl (addUse m chain) o)) m (.items chain inner.items)
  | first {o : Outline} {m : LocalId} {chain : List Name} {item : Item} {items : List Item}
      (h : Visits map body o m (.items chain (item :: items))) :
      Visits map body o m (.item chain item)
  | others {o : Outline} {m : LocalId} {chain : List Name} {item : Item} {items : List Item}
      (h : Visits map body o m (.items chain (item :: items))) :
      Visits map body (addItem o m chain item) m (.items chain items)
  | kind {o : Outline} {m : LocalId} {chain : List Name} {name : Name} {mark : WrittenVisibility}
      {kind : ItemKind} (h : Visits map body o m (.item chain ⟨some name, mark, kind⟩)) :
      Visits map body (o.judge m chain mark name).1 m
        (.kind chain name (o.judge m chain mark name).2 kind)
  | module {o o' : Outline} {m child : LocalId} {chain : List Name} {name : Name}
      {visibility : Visibility} {inner : ModuleBody}
      (h : Visits map body o m (.kind chain name visibility (.module inner)))
      (ho : o.openChild? m name visibility .module = some (o', child)) :
      Visits map body o' child (.body (chain ++ [name]) inner)
  | enum {o o' : Outline} {m child : LocalId} {chain : List Name} {name : Name}
      {visibility : Visibility} {variants : List Variant}
      (h : Visits map body o m (.kind chain name visibility (.enum variants)))
      (ho : o.openChild? m name visibility .enum = some (o', child)) :
      Visits map body o' child (.variants visibility variants)
  | variant {o : Outline} {m : LocalId} {visibility : Visibility} {variant : Variant}
      {variants : List Variant}
      (h : Visits map body o m (.variants visibility (variant :: variants))) :
      Visits map body (o.declareVariants m visibility [variant]) m (.variants visibility variants)

/-- What the walk relies on where it does something: it is in a module, at the end of the names that
it brings along, or in an enum for its variants; and a visibility that it brings along counts
there. -/
def Ready (o : Outline) (m : LocalId) : Task → Prop
  | .body chain _ => AtModule o m chain
  | .uses chain _ => AtModule o m chain
  | .externCrates chain _ => AtModule o m chain
  | .items chain _ => AtModule o m chain
  | .item chain _ => AtModule o m chain
  | .kind chain _ visibility _ =>
    AtModule o m chain ∧ visibility.isVisibleFrom o.map.tree m = true
  | .variants visibility _ => At o m ∧ visibility.isVisibleFrom o.map.tree m = true

theorem Ready.atModule {task : Task} (h : Ready o m task) (hchain : task.chain? = some chain) :
    AtModule o m chain := by
  cases task with
  | body | uses | externCrates | items | item =>
    cases hchain
    exact h
  | kind =>
    cases hchain
    exact h.1
  | variants => cases hchain

theorem Ready.toAt {task : Task} (h : Ready o m task) : At o m := by
  cases hchain : task.chain? with
  | some chain => exact (h.atModule hchain).toAt
  | none =>
    cases task with
    | variants => exact h.1
    | body | uses | externCrates | items | item | kind => cases hchain

/-- Wherever the walk comes, it has come there in steps, and what it relies on is so. -/
theorem Visits.steps_ready {map : CrateMap} {body : ModuleBody} (hmap : AtModule { map } .root [])
    {task : Task} (h : Visits map body o m task) : Steps { map } o ∧ Ready o m task := by
  have advance : ∀ {o o' : Outline} {m : LocalId} {chain : List Name},
      Steps { map } o ∧ AtModule o m chain → Steps o o' →
        Steps { map } o' ∧ AtModule o' m chain :=
    fun h hsteps => ⟨h.1.trans hsteps, h.2.steps hsteps⟩
  induction h with
  | start => exact ⟨.refl, hmap⟩
  | uses h ih => exact ih
  | @use o m chain leaf leaves h ih => exact advance ih (addUse_steps ih.2 leaf)
  | @externCrates o m chain inner h ih => exact advance ih (uses_steps ih.2 inner.uses)
  | @externCrate o m chain declaration declarations h ih =>
    exact advance ih (addExternCrate_steps ih.2 declaration)
  | @items o m chain inner h ih =>
    exact advance ih (directives_steps ih.2 inner.uses inner.externCrates)
  | first h ih => exact ih
  | @others o m chain item items h ih => exact advance ih (addItem_steps ih.2 item)
  | @kind o m chain name mark kind h ih =>
    obtain ⟨hbefore, hat⟩ := ih
    have hat : AtModule o m chain := hat
    obtain ⟨hsteps, hvisible⟩ := judge_spec hat.toAt chain mark name
    exact ⟨hbefore.trans hsteps, hat.steps hsteps, hat.visible hsteps hvisible⟩
  | module h ho ih =>
    obtain ⟨hbefore, hat, hvisible⟩ := ih
    obtain ⟨hsteps, hinner⟩ := openModule_steps hat hvisible ho
    exact ⟨hbefore.trans hsteps, hinner⟩
  | enum h ho ih =>
    obtain ⟨hbefore, hat, hvisible⟩ := ih
    obtain ⟨hsteps, hchild, -, -, hvisible'⟩ := openChild?_steps hat hvisible ho
    exact ⟨hbefore.trans hsteps, hchild, hvisible'⟩
  | @variant o m visibility variant variants h ih =>
    obtain ⟨hbefore, hat, hvisible⟩ := ih
    have hsteps := declareVariants_steps [variant] hat hvisible
    exact ⟨hbefore.trans hsteps, hat.steps hsteps, hat.visible hsteps hvisible⟩

/-! ### The outline of a crate -/

/-- The root has no names before the walk, and a module that is not there has none either. -/
theorem binding?_initial (crate : CrateId) (name : String) (edition : Edition)
    (externPrelude : Listing Name ModuleId) (slot : Slot) :
    (CrateMap.initial crate name edition externPrelude).binding? slot = none := by
  have hscope : (CrateMap.initial crate name edition externPrelude).scope slot.module = ∅ := by
    change #[∅].getD slot.module.index ∅ = _
    rw [Array.getD_eq_getD_getElem?]
    cases slot.module.index <;> rfl
  rw [CrateMap.binding?, CrateMap.meaning, hscope]
  exact Meaning.get_empty slot.space

/-- Before the walk there is only a root without names. -/
theorem atModule_initial (crate : CrateId) (name : String) (edition : Edition)
    (externPrelude : Listing Name ModuleId) :
    AtModule { map := .initial crate name edition externPrelude } .root [] := by
  refine ⟨⟨⟨rfl, ?_, ?_, ?_⟩, ModuleTree.size_pos _⟩, rfl, rfl⟩
  · intro m hm
    have hroot : m = .root := by
      cases m
      exact congrArg LocalId.mk (Nat.lt_one_iff.1 hm)
    rw [hroot]
    exact ModuleTree.mem_ancestors_self _ _
  · intro slot b hb
    rw [binding?_initial] at hb
    cases hb
  · intro i hi
    cases hi

/-- The outline of a crate is made in steps from a map that has only a root. -/
theorem ofBody_steps (crate : CrateId) (name : String) (edition : Edition)
    (externPrelude : Listing Name ModuleId) (body : ModuleBody) :
    Steps { map := .initial crate name edition externPrelude }
      (ofBody (.initial crate name edition externPrelude) body) :=
  (addBody_steps (atModule_initial crate name edition externPrelude) body).trans
    (overlooks_steps.tell _ _ _)

/-- The outline of a crate is sound, and its tree is that of the crate. -/
theorem sound_ofBody (crate : CrateId) (name : String) (edition : Edition)
    (externPrelude : Listing Name ModuleId) (body : ModuleBody) :
    Sound (ofBody (.initial crate name edition externPrelude) body) ∧
      Later { map := .initial crate name edition externPrelude }
        (ofBody (.initial crate name edition externPrelude) body) :=
  have hsteps := ofBody_steps crate name edition externPrelude body
  ⟨hsteps.sound (atModule_initial crate name edition externPrelude).sound, hsteps.later⟩

end Outline

end CrateScope
