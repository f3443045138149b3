import CrateScope.Outline
import Mathlib.Data.List.Basic

/-!
# Module trees that grow

The way from a module to the root is the list of its ancestors.  A tree grows by one module at a
time, inside of a module that is there already, so that the old modules keep their numbers, paths,
kinds and parents, and with them the way to the root.

## Main definitions

* `ModuleTree.Extends` — a tree that grew out of another one.
* `ModuleTree.Rooted` — the root encloses every module.
* `ModuleTree.Grown` — what a new module changes.

## Main results

* `ModuleTree.Extends.ancestors`, `ModuleTree.Extends.encloser?` — what is around an old module
  stays.
* `ModuleTree.grown_of_addChild?` — adding a module changes this and nothing else.
* `CrateMap.eq_of_addChild?` — a map with a new module differs in its tree and its scopes only.
-/

namespace CrateScope

/-! ### Ancestors -/

namespace ModuleTree

variable {t t' : ModuleTree}

theorem mem_ancestors_self (t : ModuleTree) (m : LocalId) : m ∈ t.ancestors m := by
  cases h : t.parent? m with
  | none => rw [ancestors_of_parent?_none h]; exact List.mem_singleton_self m
  | some p => rw [ancestors_of_parent? h]; exact List.mem_cons_self

theorem parent_mem_ancestors {m p : LocalId} (h : t.parent? m = some p) : p ∈ t.ancestors m := by
  rw [ancestors_of_parent? h]
  exact List.mem_cons_of_mem m (t.mem_ancestors_self p)

theorem ancestors_trans {a b m : LocalId} (hab : a ∈ t.ancestors b) (hbm : b ∈ t.ancestors m) :
    a ∈ t.ancestors m := by
  induction m using ancestors.induct (t := t) with
  | case1 m h =>
    rw [ancestors_of_parent?_none h, List.mem_singleton] at hbm
    rwa [← hbm]
  | case2 m p h ih =>
    rw [ancestors_of_parent? h, List.mem_cons] at hbm
    rcases hbm with heq | hbm
    · rwa [← heq]
    · rw [ancestors_of_parent? h]
      exact List.mem_cons_of_mem m (ih hbm)

/-- The modules on the way to the root are those that are found by climbing. -/
theorem getElem?_ancestors (t : ModuleTree) (m : LocalId) (levels : Nat) :
    (t.ancestors m)[levels]? = t.climb? levels m := by
  induction levels generalizing m with
  | zero =>
    cases h : t.parent? m with
    | none => rw [ancestors_of_parent?_none h]; rfl
    | some p => rw [ancestors_of_parent? h]; rfl
  | succ levels ih =>
    cases h : t.parent? m with
    | none => rw [ancestors_of_parent?_none h, climb?, h]; rfl
    | some p => rw [ancestors_of_parent? h, climb?, h]; exact ih p

theorem mem_ancestors_of_climb? {levels : Nat} {m a : LocalId} (h : t.climb? levels m = some a) :
    a ∈ t.ancestors m := by
  rw [← getElem?_ancestors] at h
  exact List.mem_of_getElem? h

theorem mem_ancestors_of_encloser? {m a : LocalId} {chain target : List Name}
    (h : t.encloser? m chain target = some a) : a ∈ t.ancestors m := by
  unfold encloser? at h
  simp only at h
  split at h
  · cases h
  · split at h
    · cases h
      exact List.mem_reverse.1 (List.getElem_mem _)
    · cases h

theorem encloses_iff {a m : LocalId} : t.encloses a m = true ↔ a ∈ t.ancestors m := by
  simp [encloses]

/-- What encloses a module came before it. -/
theorem le_of_mem_ancestors {a m : LocalId} (h : a ∈ t.ancestors m) : a.index ≤ m.index := by
  induction m using ancestors.induct (t := t) with
  | case1 m hp =>
    rw [ancestors_of_parent?_none hp, List.mem_singleton] at h
    exact Nat.le_of_eq (congrArg LocalId.index h)
  | case2 m p hp ih =>
    rw [ancestors_of_parent? hp, List.mem_cons] at h
    rcases h with rfl | h
    · exact Nat.le_refl _
    · have := ih h
      have := parent?_lt hp
      omega

theorem lt_size_of_mem_ancestors {a m : LocalId} (hm : m.index < t.size) (h : a ∈ t.ancestors m) :
    a.index < t.size :=
  Nat.lt_of_le_of_lt (le_of_mem_ancestors h) hm

/-! ### Trees that grow -/

/-- What a module stands for. -/
def kind? (t : ModuleTree) (m : LocalId) : Option ModuleKind := (t.module? m).map Module.kind

/-- The tree `t'` has the modules of `t`, each where it was and as it was, and perhaps others. -/
structure Extends (t t' : ModuleTree) : Prop where
  crate : t'.crate = t.crate
  size : t.size ≤ t'.size
  parent? : ∀ m : LocalId, m.index < t.size → t'.parent? m = t.parent? m
  pathOf : ∀ m : LocalId, m.index < t.size → t'.pathOf m = t.pathOf m
  kind? : ∀ m : LocalId, m.index < t.size → t'.kind? m = t.kind? m
  child? : ∀ m name child, t.child? m name = some child → t'.child? m name = some child

theorem Extends.refl (t : ModuleTree) : Extends t t :=
  ⟨rfl, Nat.le_refl _, fun _ _ => rfl, fun _ _ => rfl, fun _ _ => rfl, fun _ _ _ h => h⟩

theorem Extends.trans {t'' : ModuleTree} (h : Extends t t') (h' : Extends t' t'') :
    Extends t t'' where
  crate := h'.crate.trans h.crate
  size := Nat.le_trans h.size h'.size
  parent? m hm := (h'.parent? m (Nat.lt_of_lt_of_le hm h.size)).trans (h.parent? m hm)
  pathOf m hm := (h'.pathOf m (Nat.lt_of_lt_of_le hm h.size)).trans (h.pathOf m hm)
  kind? m hm := (h'.kind? m (Nat.lt_of_lt_of_le hm h.size)).trans (h.kind? m hm)
  child? m name child hc := h'.child? m name child (h.child? m name child hc)

/-- The way from a module to the root does not change. -/
theorem Extends.ancestors (h : Extends t t') {m : LocalId} (hm : m.index < t.size) :
    t'.ancestors m = t.ancestors m := by
  induction m using ancestors.induct (t := t) with
  | case1 m hp =>
    rw [ancestors_of_parent?_none hp, ancestors_of_parent?_none ((h.parent? m hm).trans hp)]
  | case2 m p hp ih =>
    have hlt : p.index < t.size := Nat.lt_trans (parent?_lt hp) hm
    rw [ancestors_of_parent? hp, ancestors_of_parent? ((h.parent? m hm).trans hp), ih hlt]

/-- The modules around stay the same, and so do their names. -/
theorem Extends.inStep (h : t.Extends t') (target : List Name) (depth : Nat)
    {way : List (Name × LocalId)} (hway : ∀ step ∈ way, step.2.index < t.size) :
    t'.inStep target depth way = t.inStep target depth way := by
  induction way generalizing depth with
  | nil => rfl
  | cons step way ih =>
    rw [ModuleTree.inStep, ModuleTree.inStep, h.pathOf step.2 (hway step List.mem_cons_self),
      ih (depth + 1) fun step hstep => hway step (List.mem_cons_of_mem _ hstep)]

theorem Extends.encloser? (h : t.Extends t') {m : LocalId} (hm : m.index < t.size)
    (chain target : List Name) : t'.encloser? m chain target = t.encloser? m chain target := by
  have hway : ∀ step ∈ chain.zip (t.ancestors m).reverse.tail, step.2.index < t.size :=
    fun step hstep => lt_size_of_mem_ancestors hm
      (List.mem_reverse.1 (List.mem_of_mem_tail (List.of_mem_zip hstep).2))
  unfold ModuleTree.encloser?
  simp only [h.ancestors hm, h.inStep target 0 hway]

/-- In a tree that has grown the old modules are found as before. -/
theorem Extends.descend? (h : Extends t t') {m k : LocalId} {names : List Name}
    (hd : t.descend? m names = some k) : t'.descend? m names = some k := by
  induction names generalizing m with
  | nil => exact hd
  | cons name names ih =>
    rw [ModuleTree.descend?, Option.bind_eq_some_iff] at hd ⊢
    obtain ⟨child, hchild, hd⟩ := hd
    exact ⟨child, h.child? m name child hchild, ih hd⟩

/-- The root encloses every module. -/
def Rooted (t : ModuleTree) : Prop := ∀ m : LocalId, m.index < t.size → .root ∈ t.ancestors m

/-- What a new module changes in a tree: there is one more, with the next number, inside of its
parent and below the path of that. -/
structure Grown (t : ModuleTree) (parent : LocalId) (name : Name) (kind : ModuleKind)
    (t' : ModuleTree) (child : LocalId) : Prop where
  inside : parent.index < t.size
  number : child.index = t.size
  size : t'.size = t.size + 1
  parent? : t'.parent? child = some parent
  pathOf : t'.pathOf child = (t.pathOf parent).child name
  kind? : t'.kind? child = some kind
  child? : ∀ m n, t'.child? m n = if m = parent ∧ n = name then some child else t.child? m n
  extension : Extends t t'

theorem module?_eq_none_iff {m : LocalId} : t.module? m = none ↔ t.size ≤ m.index := by
  unfold module? size
  exact Array.getElem?_eq_none_iff

theorem exists_module? {m : LocalId} (h : m.index < t.size) : ∃ module, t.module? m = some module :=
  Option.isSome_iff_exists.1 (by
    rw [Option.isSome_iff_ne_none, ne_eq, module?_eq_none_iff]
    omega)

theorem child?_eq_none_of_size_le {m : LocalId} (h : t.size ≤ m.index) (name : Name) :
    t.child? m name = none := by
  rw [child?, module?_eq_none_iff.2 h]
  rfl

/-- A new module is added at the end, and among the children of its parent. -/
theorem module?_addChild? {parent child : LocalId} {name : Name} {kind : ModuleKind}
    (h : t.addChild? parent name kind = some (t', child)) :
    ∃ host, t.module? parent = some host ∧ host.children.get? name = none ∧
      child.index = t.size ∧ t'.crate = t.crate ∧ t'.size = t.size + 1 ∧
      ∀ m, t'.module? m =
        if m = child then some { path := host.path.child name, parent := some parent, kind }
        else if m = parent then some { host with children := host.children.insert name child }
        else t.module? m := by
  unfold addChild? at h
  split at h
  · next hlt =>
    simp only at h
    split at h
    · cases h
    · next hfree =>
      cases h
      refine ⟨t.modules[parent.index], Array.getElem?_eq_getElem hlt, ?_, rfl, rfl, by simp [size],
        fun m => ?_⟩
      · simpa [Listing.contains] using hfree
      · obtain ⟨m⟩ := m
        obtain ⟨p⟩ := parent
        simp only [module?, Array.getElem?_push, Array.size_set, LocalId.mk.injEq]
        by_cases hm : m = t.modules.size
        · simp [hm]
        · simp only [if_neg hm, Array.getElem?_set, eq_comm (a := p)]
  · cases h

/-- A module is not added only if its name is taken. -/
theorem isSome_child?_of_addChild? {parent : LocalId} {name : Name} {kind : ModuleKind}
    (h : parent.index < t.size) (hnone : t.addChild? parent name kind = none) :
    (t.child? parent name).isSome := by
  unfold addChild? at hnone
  rw [dif_pos (show parent.index < t.modules.size from h)] at hnone
  simp only at hnone
  split at hnone
  · next htaken =>
    unfold child? module?
    rw [Array.getElem?_eq_getElem h]
    exact htaken
  · cases hnone

section AddChild

variable {parent child : LocalId} {name : Name} {kind : ModuleKind}
  (h : t.addChild? parent name kind = some (t', child))

include h

/-- A module is added only if its name is free. -/
theorem child?_of_addChild? : t.child? parent name = none := by
  obtain ⟨host, hhost, hfree, -⟩ := module?_addChild? h
  rw [child?, hhost]
  exact hfree

theorem lt_size_of_addChild? : parent.index < t.size := by
  obtain ⟨host, hhost, -⟩ := module?_addChild? h
  by_contra hle
  rw [module?_eq_none_iff.2 (Nat.le_of_not_lt hle)] at hhost
  cases hhost

/-- An old module differs from what it was at most in its children. -/
theorem module?_addChild?_of_lt {m : LocalId} (hm : m.index < t.size) :
    ∃ module children, t.module? m = some module ∧
      t'.module? m = some { module with children } := by
  obtain ⟨host, hhost, -, hnumber, -, -, hmodule⟩ := module?_addChild? h
  have hmc : m ≠ child := by
    rintro rfl
    omega
  rw [hmodule, if_neg hmc]
  by_cases hmp : m = parent
  · rw [if_pos hmp, hmp]
    exact ⟨host, _, hhost, rfl⟩
  · rw [if_neg hmp]
    obtain ⟨module, hmod⟩ := exists_module? hm
    exact ⟨module, module.children, hmod, hmod⟩

/-- The new module is the only new child. -/
theorem child?_addChild? (m : LocalId) (n : Name) :
    t'.child? m n = if m = parent ∧ n = name then some child else t.child? m n := by
  obtain ⟨host, hhost, -, hnumber, -, -, hmodule⟩ := module?_addChild? h
  have hne : parent ≠ child := by
    rintro rfl
    have := lt_size_of_addChild? h
    omega
  unfold ModuleTree.child?
  rw [hmodule]
  by_cases hmc : m = child
  · rw [if_pos hmc, if_neg fun h => hne (h.1.symm.trans hmc), hmc,
      module?_eq_none_iff.2 (Nat.le_of_eq hnumber.symm)]
    rfl
  · rw [if_neg hmc]
    by_cases hmp : m = parent
    · subst hmp
      rw [if_pos rfl, hhost]
      simp
    · rw [if_neg hmp, if_neg fun h => hmp h.1]

theorem extends_addChild? : Extends t t' := by
  obtain ⟨host, -, -, -, hcrate, hsize, -⟩ := module?_addChild? h
  refine ⟨hcrate, by omega, ?_, ?_, ?_, ?_⟩
  · intro m hm
    obtain ⟨module, children, hmod, hmod'⟩ := module?_addChild?_of_lt h hm
    rw [ModuleTree.parent?, ModuleTree.parent?, hmod, hmod']
    rfl
  · intro m hm
    obtain ⟨module, children, hmod, hmod'⟩ := module?_addChild?_of_lt h hm
    rw [ModuleTree.pathOf, ModuleTree.pathOf, hmod, hmod']
    rfl
  · intro m hm
    obtain ⟨module, children, hmod, hmod'⟩ := module?_addChild?_of_lt h hm
    rw [ModuleTree.kind?, ModuleTree.kind?, hmod, hmod']
    rfl
  · intro m n c hc
    rw [child?_addChild? h, if_neg]
    · exact hc
    · -- An old child cannot have the name that was free.
      rintro ⟨rfl, rfl⟩
      rw [child?_of_addChild? h] at hc
      cases hc

theorem grown_of_addChild? : Grown t parent name kind t' child := by
  obtain ⟨host, hhost, -, hnumber, -, hsize, hmodule⟩ := module?_addChild? h
  refine ⟨lt_size_of_addChild? h, hnumber, hsize, ?_, ?_, ?_, child?_addChild? h,
    extends_addChild? h⟩
  · rw [ModuleTree.parent?, hmodule, if_pos rfl]
    rfl
  · rw [ModuleTree.pathOf, hmodule, if_pos rfl, ModuleTree.pathOf, hhost]
    rfl
  · rw [ModuleTree.kind?, hmodule, if_pos rfl]
    rfl

end AddChild

/-- Every module is one of the old ones, or the new one. -/
theorem Grown.lt_or_eq {parent child : LocalId} {name : Name} {kind : ModuleKind}
    (h : Grown t parent name kind t' child) {m : LocalId} (hm : m.index < t'.size) :
    m.index < t.size ∨ m = child := by
  rw [h.size, Nat.lt_succ_iff_lt_or_eq] at hm
  refine hm.imp_right fun hm => ?_
  have heq : m.index = child.index := hm.trans h.number.symm
  cases m
  cases child
  exact congrArg LocalId.mk heq

end ModuleTree

/-! ### Maps that grow -/

namespace CrateMap

variable {map map' : CrateMap} {parent child : LocalId} {name : Name} {kind : ModuleKind}
  (h : map.addChild? parent name kind = some (map', child))

include h

/-- A map with a new module differs from the old one in its tree and its scopes only. -/
theorem eq_of_addChild? : map.tree.addChild? parent name kind = some (map'.tree, child) ∧
    map' = { map with tree := map'.tree, scopes := map.scopes.push ∅ } := by
  rw [addChild?, Option.map_eq_some_iff] at h
  obtain ⟨⟨tree, child'⟩, htree, heq⟩ := h
  cases heq
  exact ⟨htree, rfl⟩

/-- The new module has no names, and the others keep theirs. -/
theorem binding?_addChild? (slot : Slot) : map'.binding? slot = map.binding? slot := by
  rw [(eq_of_addChild? h).2]
  unfold binding? meaning scope
  simp only [Array.getD_eq_getD_getElem?, Array.getElem?_push]
  split
  · next heq => rw [heq, Array.getElem?_eq_none (Nat.le_refl _)]; rfl
  · rfl

theorem grown_of_addChild? : map.tree.Grown parent name kind map'.tree child :=
  ModuleTree.grown_of_addChild? (eq_of_addChild? h).1

theorem size_scopes_addChild? : map'.scopes.size = map.scopes.size + 1 := by
  rw [(eq_of_addChild? h).2]
  exact Array.size_push ∅

end CrateMap

end CrateScope
