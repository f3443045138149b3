import CrateScope.Proofs.Declarations

/-!
# Paths as addresses

In the module tree of a crate the path of a module is its address: going down from the root along
its names leads to the module, and wherever one comes to by going down along some names, these are
the names of the path.  A declared item that has names inside has a module at its own path.

## Main definitions

* `ModuleTree.Regular` — paths are addresses, and only modules have children.
* `CrateMap.bindingAt?` — what is bound at the path of an item.
* `Outline.Orderly` — the tree of an outline is regular, every declaration fits where it is, and
  imports stand in modules that are no enums.

## Main results

* `ModuleTree.Regular.pathOf_descend?` — the names along which a module is found are those of its
  path.
* `Outline.orderly_ofBody` — the outline of a crate is orderly.
-/

namespace CrateScope

namespace ModuleTree

variable {t t' : ModuleTree}

/-! ### Going down -/

theorem descend?_append (t : ModuleTree) (m : LocalId) (names names' : List Name) :
    t.descend? m (names ++ names') = (t.descend? m names).bind (t.descend? · names') := by
  induction names generalizing m with
  | nil => rfl
  | cons name names ih =>
    rw [List.cons_append, descend?, descend?, Option.bind_assoc]
    congr 1
    funext child
    exact ih child

theorem descend?_child {m host child : LocalId} {names : List Name} {name : Name}
    (hhost : t.descend? m names = some host) (hchild : t.child? host name = some child) :
    t.descend? m (names ++ [name]) = some child := by
  rw [descend?_append, hhost, Option.bind_some, descend?, hchild]
  rfl

/-! ### Regular trees -/

/-- The path of a module is its address: it is where going down leads to, and going down along it
leads to the module.  Enums have no modules inside. -/
structure Regular (t : ModuleTree) : Prop where
  root : t.pathOf .root = ⟨t.crate, []⟩
  rootKind : t.kind? .root = some .module
  inside : ∀ m name child, t.child? m name = some child → child.index < t.size
  pathOf_child : ∀ m name child, t.child? m name = some child →
    t.pathOf child = (t.pathOf m).child name
  crate_pathOf : ∀ m, (t.pathOf m).crate = t.crate
  descend?_pathOf : ∀ m, m.index < t.size → t.descend? .root (t.pathOf m).segments = some m
  kind?_parent : ∀ m p, t.parent? m = some p → t.kind? p = some .module

theorem regular_singleton (crate : CrateId) : (singleton crate).Regular := by
  have hmodule : ∀ m : LocalId, (singleton crate).module? m
      = if m = .root then some { path := ⟨crate, []⟩, parent := none, kind := .module }
        else none := by
    rintro ⟨_ | m⟩
    · rfl
    · rfl
  have hchild : ∀ m name, (singleton crate).child? m name = none := by
    intro m name
    unfold child?
    rw [hmodule]
    split <;> rfl
  have hpath : ∀ m, (singleton crate).pathOf m = ⟨crate, []⟩ := by
    intro m
    unfold pathOf
    rw [hmodule]
    split <;> rfl
  refine ⟨rfl, rfl, ?_, ?_, ?_, ?_, ?_⟩
  · intro m name child h
    rw [hchild] at h
    cases h
  · intro m name child h
    rw [hchild] at h
    cases h
  · intro m
    rw [hpath]
    rfl
  · rintro ⟨m⟩ hm
    rw [hpath]
    have hzero : m = 0 := Nat.lt_one_iff.1 hm
    rw [hzero]
    rfl
  · intro m p hp
    unfold parent? at hp
    rw [hmodule] at hp
    split at hp <;> cases hp

theorem lt_size_of_child? {m child : LocalId} {name : Name} (h : t.child? m name = some child) :
    m.index < t.size := by
  by_contra hle
  rw [child?_eq_none_of_size_le (Nat.le_of_not_lt hle)] at h
  cases h

theorem lt_size_of_parent? {m p : LocalId} (h : t.parent? m = some p) : m.index < t.size := by
  by_contra hle
  rw [ModuleTree.parent?, module?_eq_none_iff.2 (Nat.le_of_not_lt hle)] at h
  cases h

theorem Grown.regular {parent child : LocalId} {name : Name} {kind : ModuleKind}
    (hg : Grown t parent name kind t' child) (hkind : t.kind? parent = some .module)
    (h : t.Regular) : t'.Regular where
  root := by
    rw [hg.extension.pathOf .root t.size_pos, hg.extension.crate]
    exact h.root
  rootKind := by
    rw [hg.extension.kind? .root t.size_pos]
    exact h.rootKind
  inside m n c hc := by
    rw [hg.child?] at hc
    split at hc
    · cases hc
      rw [hg.number, hg.size]
      exact Nat.lt_succ_self _
    · exact Nat.lt_of_lt_of_le (h.inside m n c hc) hg.extension.size
  pathOf_child m n c hc := by
    rw [hg.child?] at hc
    split at hc
    · next heq =>
      cases hc
      rw [heq.1, heq.2, hg.pathOf, hg.extension.pathOf parent hg.inside]
    · rw [hg.extension.pathOf c (h.inside m n c hc), hg.extension.pathOf m (lt_size_of_child? hc)]
      exact h.pathOf_child m n c hc
  crate_pathOf m := by
    by_cases hm : m.index < t'.size
    · rcases hg.lt_or_eq hm with hlt | rfl
      · rw [hg.extension.pathOf m hlt, hg.extension.crate]
        exact h.crate_pathOf m
      · rw [hg.pathOf, ItemPath.crate_child, hg.extension.crate]
        exact h.crate_pathOf parent
    · rw [ModuleTree.pathOf, module?_eq_none_iff.2 (Nat.le_of_not_lt hm)]
      rfl
  descend?_pathOf m hm := by
    rcases hg.lt_or_eq hm with hlt | rfl
    · rw [hg.extension.pathOf m hlt]
      exact hg.extension.descend? (h.descend?_pathOf m hlt)
    · -- The way to the new module is the way to its parent and one step more.
      have hparent : t'.descend? .root (t.pathOf parent).segments = some parent :=
        hg.extension.descend? (h.descend?_pathOf parent hg.inside)
      rw [hg.pathOf, ItemPath.segments_child]
      exact descend?_child hparent ((hg.child? parent name).trans (if_pos ⟨rfl, rfl⟩))
  kind?_parent m p hp := by
    rcases hg.lt_or_eq (lt_size_of_parent? hp) with hlt | rfl
    · rw [hg.extension.parent? m hlt] at hp
      rw [hg.extension.kind? p (Nat.lt_trans (parent?_lt hp) hlt)]
      exact h.kind?_parent m p hp
    · rw [hg.parent?] at hp
      cases hp
      rw [hg.extension.kind? parent hg.inside]
      exact hkind

namespace Regular

variable (h : t.Regular)

include h

/-- The names along which a module is found are those of its path. -/
theorem pathOf_descend? {names : List Name} {m : LocalId}
    (hd : t.descend? .root names = some m) : m.index < t.size ∧ t.pathOf m = ⟨t.crate, names⟩ := by
  have key : ∀ (names : List Name) (base : LocalId), base.index < t.size →
      t.descend? base names = some m → m.index < t.size ∧
        t.pathOf m = ⟨t.crate, (t.pathOf base).segments ++ names⟩ := by
    intro names
    induction names with
    | nil =>
      intro base hlt hd
      cases hd
      refine ⟨hlt, ?_⟩
      rw [List.append_nil, ← h.crate_pathOf m]
    | cons name names ih =>
      intro base hlt hd
      rw [ModuleTree.descend?, Option.bind_eq_some_iff] at hd
      obtain ⟨child, hchild, hd⟩ := hd
      obtain ⟨hm, hpath⟩ := ih child (h.inside base name child hchild) hd
      refine ⟨hm, ?_⟩
      rw [hpath, h.pathOf_child base name child hchild, ItemPath.segments_child, List.append_assoc,
        List.singleton_append]
  have hroot := key names .root t.size_pos hd
  rwa [h.root, List.nil_append] at hroot

/-- All that encloses a module which is no enum is a module itself. -/
theorem kind?_ancestor {a m : LocalId} (hm : t.kind? m = some .module)
    (ha : a ∈ t.ancestors m) : t.kind? a = some .module := by
  induction m using ancestors.induct (t := t) with
  | case1 m hp =>
    rw [ancestors_of_parent?_none hp, List.mem_singleton] at ha
    rwa [ha]
  | case2 m p hp ih =>
    rw [ancestors_of_parent? hp, List.mem_cons] at ha
    rcases ha with rfl | ha
    · exact hm
    · exact ih (h.kind?_parent m p hp) ha

end Regular

end ModuleTree

/-! ### Items at their paths -/

/-- What is bound at the path of an item in a namespace: the slot of its name in the module that the
path leads to before. -/
def CrateMap.bindingAt? (map : CrateMap) (ns : Namespace) (path : ItemPath) : Option Binding := do
  let name ← path.last?
  let parent ← path.parent?
  let m ← map.tree.descend? .root parent.segments
  map.binding? ⟨m, name, ns⟩

theorem CrateMap.bindingAt?_child {map : CrateMap} (h : map.tree.Regular) {m : LocalId}
    (hm : m.index < map.tree.size) (ns : Namespace) (name : Name) :
    map.bindingAt? ns ((map.tree.pathOf m).child name) = map.binding? ⟨m, name, ns⟩ := by
  unfold bindingAt?
  rw [ItemPath.parent?_child, ItemPath.last?_child]
  change (map.tree.descend? .root (map.tree.pathOf m).segments).bind _ = _
  rw [h.descend?_pathOf m hm]
  rfl

/-- What fits where it is declared is found at its path. -/
theorem Binding.Fits.bindingAt? {map : CrateMap} (h : map.tree.Regular) {slot : Slot} {b : Binding}
    (hm : slot.module.index < map.tree.size) (hb : map.binding? slot = some b)
    (hfits : b.Fits map.tree slot) : map.bindingAt? slot.space b.path = some b := by
  rw [hfits.path, CrateMap.bindingAt?_child h hm]
  exact hb

/-! ### Outlines -/

namespace Outline

variable {o o' : Outline}

/-- The tree of an outline is regular, its declarations fit where they are, and its imports stand in
modules that are no enums. -/
structure Orderly (o : Outline) : Prop where
  tree : o.map.tree.Regular
  fits : ∀ slot b, o.map.binding? slot = some b → b.Fits o.map.tree slot
  imports : ∀ i ∈ o.imports, o.map.tree.kind? i.module = some .module

theorem Step.orderly (hs : Sound o) (h : Step o o') (ho : Orderly o) : Orderly o' := by
  cases h with
  | told => exact ⟨ho.tree, ho.fits, ho.imports⟩
  | @declared slot b hr hfree hfits =>
    refine ⟨ho.tree, fun t b' hb => ?_, ho.imports⟩
    rw [CrateMap.binding?_bind _ (hs.sized ▸ hr)] at hb
    split at hb
    · next heq =>
      cases hb
      rw [heq]
      exact hfits
    · exact ho.fits t b' hb
  | @opened parent child name kind map h hparent =>
    have hgrown := CrateMap.grown_of_addChild? h
    refine ⟨hgrown.regular hparent ho.tree, fun slot b hb => ?_, fun i hi => ?_⟩
    · rw [CrateMap.binding?_addChild? h] at hb
      exact (ho.fits slot b hb).extends hgrown.extension (hs.mem_tree hb)
    · rw [hgrown.extension.kind? i.module (hs.imports i hi).1]
      exact ho.imports i hi
  | @queued i hr hv hmodule =>
    refine ⟨ho.tree, ho.fits, fun j hj => ?_⟩
    rcases List.mem_append.1 hj with hj | hj
    · exact ho.imports j hj
    · rw [List.mem_singleton.1 hj]
      exact hmodule

theorem Steps.orderly (hs : Sound o) (h : Steps o o') (ho : Orderly o) : Orderly o' := by
  induction h with
  | refl => exact ho
  | tail hsteps hstep ih => exact hstep.orderly (Steps.sound hs hsteps) ih

/-- The outline of a crate is orderly. -/
theorem orderly_ofBody (crate : CrateId) (name : String) (edition : Edition)
    (externPrelude : Listing Name ModuleId) (body : ModuleBody) :
    Orderly (ofBody (.initial crate name edition externPrelude) body) := by
  have hinitial := atModule_initial crate name edition externPrelude
  refine (ofBody_steps crate name edition externPrelude body).orderly hinitial.sound ?_
  refine ⟨ModuleTree.regular_singleton crate, fun slot b hb => ?_, fun i hi => by cases hi⟩
  rw [binding?_initial] at hb
  cases hb

end Outline

end CrateScope
