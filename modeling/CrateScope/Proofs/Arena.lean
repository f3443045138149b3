import CrateScope.Proofs.Opening
import CrateScope.Proofs.Permanence
import Mathlib

/-!
# One tree, stored three times

The modules of a crate are stored by number.  Each knows its parent by number, its children by name,
and its own path, which repeats what can be read off the other two.  All three tell the same tree:
the children of a module are the modules that have it for a parent, and a path is the names of the
children on the way down.  So going down along the path of a module leads to it, climbing up ends at
the root, and one module encloses another exactly if its path begins the path of the other one.

## Main definitions

* `ModuleTree.Tied` — the children of a module have it for a parent.
* `ModuleTree.Unified` — parents, children and paths tell the same tree.

## Main results

* `ModuleTree.Regular.mem_ancestors_iff` — what encloses a module is known from the paths.
* `modules_form_one_tree` — the tree of an outline is of this kind, and no import changes it.
-/

namespace CrateScope

namespace ModuleTree

variable {t t' : ModuleTree}

/-! ### Children and parents -/

/-- The children of a module have it for a parent. -/
def Tied (t : ModuleTree) : Prop :=
  ∀ p name m, t.child? p name = some m → t.parent? m = some p

theorem child?_singleton (crate : CrateId) (m : LocalId) (name : Name) :
    (singleton crate).child? m name = none := by
  unfold child? module?
  obtain ⟨_ | m⟩ := m <;> rfl

/-- A new module is a child of its parent only. -/
theorem Grown.tied {parent child : LocalId} {name : Name} {kind : ModuleKind}
    (hg : Grown t parent name kind t' child) (h : t.Regular) (ht : t.Tied) : t'.Tied := by
  intro p n m hm
  rw [hg.child?] at hm
  split at hm
  · next heq =>
    cases hm
    rw [heq.1]
    exact hg.parent?
  · rw [hg.extension.parent? m (h.inside p n m hm)]
    exact ht p n m hm

/-- Parents, children and paths tell the same tree.  The root has no parent.  Every other module has
one, which came before it; its path is that of the parent and one name more, and it is a child of
the parent under that name, and no other child of any module.  A module is found at its path, and
no two modules have the same path.  Climbing up ends at the root, and a module encloses another one
exactly if its path begins the path of that one. -/
structure Unified (t : ModuleTree) : Prop where
  parent?_root : t.parent? .root = none
  pathOf_root : t.pathOf .root = ⟨t.crate, []⟩
  parent : ∀ m : LocalId, m.index < t.size → m ≠ .root → ∃ p name, t.parent? m = some p ∧
    p.index < m.index ∧ t.pathOf m = (t.pathOf p).child name ∧
    ∀ q n, t.child? q n = some m ↔ q = p ∧ n = name
  child : ∀ m name child, t.child? m name = some child →
    child.index < t.size ∧ t.parent? child = some m
  locate? : ∀ view : View, view.tree = t → ∀ m : LocalId, m.index < t.size →
    view.locate? (t.pathOf m) = some (t.global m)
  unique : ∀ a b : LocalId, a.index < t.size → b.index < t.size → t.pathOf a = t.pathOf b → a = b
  ancestors : ∀ m : LocalId, m.index < t.size → (t.ancestors m).getLast? = some .root
  encloses : ∀ a b : LocalId, a.index < t.size → b.index < t.size →
    (t.encloses a b = true ↔ (t.pathOf a).segments <+: (t.pathOf b).segments)

theorem parent?_root (t : ModuleTree) : t.parent? .root = none := by
  cases h : t.parent? .root with
  | none => rfl
  | some p => exact absurd (parent?_lt h) (Nat.not_lt_zero _)

namespace Regular

variable (h : t.Regular)

include h

/-- No two modules have the same path. -/
theorem pathOf_injective {a b : LocalId} (ha : a.index < t.size) (hb : b.index < t.size)
    (heq : (t.pathOf a).segments = (t.pathOf b).segments) : a = b := by
  have hfound := h.descend?_pathOf a ha
  rw [heq, h.descend?_pathOf b hb] at hfound
  exact (Option.some.inj hfound).symm

/-- Every module but the root is a child: the last step of the way down to it leads there. -/
theorem exists_child {m : LocalId} (hm : m.index < t.size) (hne : m ≠ .root) :
    ∃ p name, t.child? p name = some m := by
  have hfound := h.descend?_pathOf m hm
  rcases List.eq_nil_or_concat (t.pathOf m).segments with hnil | ⟨names, name, hnames⟩
  · rw [hnil] at hfound
    exact absurd (Option.some.inj hfound).symm hne
  · rw [hnames, List.concat_eq_append, descend?_append, Option.bind_eq_some_iff] at hfound
    obtain ⟨p, -, hp⟩ := hfound
    rw [descend?, Option.bind_eq_some_iff] at hp
    obtain ⟨child, hchild, hlast⟩ := hp
    cases hlast
    exact ⟨p, name, hchild⟩

variable (ht : t.Tied)

include ht

/-- Only the root has no parent. -/
theorem eq_root_of_parent? {m : LocalId} (hm : m.index < t.size) (hp : t.parent? m = none) :
    m = .root := by
  by_contra hne
  obtain ⟨p, name, hchild⟩ := h.exists_child hm hne
  rw [ht p name m hchild] at hp
  cases hp

/-- The path of a module is that of its parent and one name more. -/
theorem pathOf_parent? {m p : LocalId} (hm : m.index < t.size) (hp : t.parent? m = some p) :
    ∃ name, t.child? p name = some m ∧ t.pathOf m = (t.pathOf p).child name := by
  have hne : m ≠ .root := by
    rintro rfl
    rw [t.parent?_root] at hp
    cases hp
  obtain ⟨q, name, hchild⟩ := h.exists_child hm hne
  obtain rfl : q = p := Option.some.inj ((ht q name m hchild).symm.trans hp)
  exact ⟨name, hchild, h.pathOf_child q name m hchild⟩

/-- What encloses a module is known from the paths: it is what the module's path begins with. -/
theorem mem_ancestors_iff {a m : LocalId} (ha : a.index < t.size) (hm : m.index < t.size) :
    a ∈ t.ancestors m ↔ (t.pathOf a).segments <+: (t.pathOf m).segments := by
  induction m using ancestors.induct (t := t) with
  | case1 m hp =>
    obtain rfl := h.eq_root_of_parent? ht hm hp
    have hroot : (t.pathOf .root).segments = [] := by rw [h.root]
    rw [ancestors_of_parent?_none hp, List.mem_singleton, hroot, List.prefix_nil]
    constructor
    · rintro rfl
      exact hroot
    · intro hnil
      exact h.pathOf_injective ha hm (hnil.trans hroot.symm)
  | case2 m p hp ih =>
    -- The path of `m` has one name more than that of its parent.
    obtain ⟨name, -, hpath⟩ := h.pathOf_parent? ht hm hp
    rw [ancestors_of_parent? hp, List.mem_cons, ih (Nat.lt_trans (parent?_lt hp) hm), hpath,
      ItemPath.segments_child, List.prefix_concat_iff, ← ItemPath.segments_child, ← hpath]
    refine or_congr_left ⟨fun heq => by rw [heq], fun heq => h.pathOf_injective ha hm heq⟩

/-- Climbing up ends at the root. -/
theorem getLast?_ancestors {m : LocalId} (hm : m.index < t.size) :
    (t.ancestors m).getLast? = some .root := by
  induction m using ancestors.induct (t := t) with
  | case1 m hp =>
    rw [ancestors_of_parent?_none hp, h.eq_root_of_parent? ht hm hp]
    rfl
  | case2 m p hp ih =>
    have hlast := ih (Nat.lt_trans (parent?_lt hp) hm)
    rw [ancestors_of_parent? hp, List.getLast?_cons, hlast]
    rfl

/-- A regular tree whose children know their parents is told the same way by all three. -/
theorem unified : t.Unified where
  parent?_root := t.parent?_root
  pathOf_root := h.root
  parent m hm hne := by
    obtain ⟨p, name, hchild⟩ := h.exists_child hm hne
    have hp := ht p name m hchild
    have hpath := h.pathOf_child p name m hchild
    refine ⟨p, name, hp, parent?_lt hp, hpath, fun q n => ⟨fun hq => ?_, ?_⟩⟩
    · obtain rfl : q = p := Option.some.inj ((ht q n m hq).symm.trans hp)
      have hnames := congrArg ItemPath.last? ((h.pathOf_child q n m hq).symm.trans hpath)
      rw [ItemPath.last?_child, ItemPath.last?_child] at hnames
      exact ⟨rfl, Option.some.inj hnames⟩
    · rintro ⟨rfl, rfl⟩
      exact hchild
  child m name child hchild := ⟨h.inside m name child hchild, ht m name child hchild⟩
  locate? view hview m hm := by
    have hcrate : view.crate = t.crate := congrArg ModuleTree.crate hview
    unfold View.locate? View.mapOf?
    rw [h.crate_pathOf m, if_pos hcrate.symm]
    change (view.tree.descend? .root (t.pathOf m).segments).bind _ = _
    rw [hview, h.descend?_pathOf m hm]
    rfl
  unique a b ha hb heq := h.pathOf_injective ha hb (congrArg ItemPath.segments heq)
  ancestors m hm := h.getLast?_ancestors ht hm
  encloses a b ha hb := encloses_iff.trans (h.mem_ancestors_iff ht ha hb)

end Regular

end ModuleTree

/-! ### Outlines -/

namespace Outline

variable {o o' : Outline}

theorem Step.tied (ho : Orderly o) (h : Step o o') (ht : o.map.tree.Tied) : o'.map.tree.Tied := by
  cases h with
  | told | declared | queued => exact ht
  | opened h =>
    have hgrown := CrateMap.grown_of_addChild? h
    exact hgrown.tied ho.tree ht

theorem Steps.tied (hs : Sound o) (ho : Orderly o) (h : Steps o o') (ht : o.map.tree.Tied) :
    o'.map.tree.Tied := by
  induction h with
  | refl => exact ht
  | tail hsteps hstep ih => exact hstep.tied (Steps.orderly hs hsteps ho) ih

/-- Wherever the walk over an item tree comes to, the modules found so far form one tree. -/
theorem tied_of_steps {crate : CrateId} {name : String} {edition : Edition}
    {names : Listing Name ModuleId} (h : Steps { map := .initial crate name edition names } o) :
    o.map.tree.Regular ∧ o.map.tree.Tied := by
  have hsound := (atModule_initial crate name edition names).sound
  have horderly : Orderly { map := .initial crate name edition names } := by
    refine ⟨ModuleTree.regular_singleton crate, fun slot b hb => ?_, fun i hi => by cases hi⟩
    rw [binding?_initial] at hb
    cases hb
  refine ⟨(h.orderly hsound horderly).tree, h.tied hsound horderly fun p n m hm => ?_⟩
  change (ModuleTree.singleton crate).child? p n = some m at hm
  rw [ModuleTree.child?_singleton] at hm
  cases hm

end Outline

/-! ### Crates -/

/-- **The modules of a crate form one tree.**  Whatever the item tree of a crate is, parents,
children and paths tell the same tree in the outline that is made of it; and in every state of the
collection of its imports, the states in the middle of an update included, the modules of the crate
are those of the outline, with the same paths, parents, kinds and children. -/
theorem modules_form_one_tree :
    (∀ (id : CrateId) (name : String) (edition : Edition) (names : Listing Name ModuleId)
      (body : ModuleBody), (Outline.ofBody (.initial id name edition names) body).map.tree.Unified) ∧
    ∀ (g : CrateGraph) (id : CrateId) (crate : CrateSource) (finished : CrateId → Option CrateMap)
      (settings : Settings) (start : Collection) (imports : List Import),
      openBuild g id crate finished settings = .ok (start, imports) →
      ∃ names, directNames g id = .ok names ∧ ∀ limit past hand c,
        Collection.Course limit imports start past hand c →
        c.tree = (crate.outline id settings names).map.tree ∧ c.tree.Unified := by
  have houtline : ∀ (id : CrateId) (name : String) (edition : Edition)
      (names : Listing Name ModuleId) (body : ModuleBody),
      (Outline.ofBody (.initial id name edition names) body).map.tree.Unified := by
    intro id name edition names body
    obtain ⟨hregular, htied⟩ :=
      Outline.tied_of_steps (Outline.ofBody_steps id name edition names body)
    exact hregular.unified htied
  refine ⟨houtline, ?_⟩
  intro g id crate finished settings start imports hopen
  obtain ⟨maps, names, prelude, log, -, hnames, -, hstart, -⟩ := openBuild_ok hopen
  refine ⟨names, hnames, fun limit past hand c hcourse => ?_⟩
  have hkeeps := (hcourse.keeps (opened_of_openBuild hopen).coherent).1
  have htree : c.tree = (crate.outline id settings names).map.tree := by
    rw [hkeeps.tree, hstart]
    rfl
  rw [htree]
  exact ⟨rfl, houtline ..⟩

/-- The two modules of the small crate are the children of its root, also after the imports. -/
theorem modules_form_one_tree_mirrors : ∃ start imports past c,
    openBuild mirrorsGraph ⟨0⟩ mirrors (fun _ => none) {} = .ok (start, imports) ∧
    Collection.Course 3 imports start past none c ∧ c.settled.length = 3 ∧
    c.tree = (mirrors.outline ⟨0⟩ {} ∅).map.tree ∧ c.tree.Unified := by
  have hrun : (openBuild mirrorsGraph ⟨0⟩ mirrors (fun _ => none) {} >>= fun r =>
      (Collection.run 3 (fun _ => false) r.2 r.1)).map (fun outcome =>
        outcome.collection.settled.length) = .ok 3 := by
    cbv
  obtain ⟨outcome, hcollect, hsettled⟩ := ok_of_map hrun
  obtain ⟨⟨start, imports⟩, hopen, hcollect⟩ := ok_of_bind hcollect
  obtain ⟨past, hcourse⟩ := Collection.Course.of_run (fun i hi => hi) hcollect
  obtain ⟨names, hnames, hstates⟩ :=
    modules_form_one_tree.2 mirrorsGraph ⟨0⟩ mirrors (fun _ => none) {} start imports hopen
  obtain rfl : ∅ = names :=
    Except.ok.inj ((by cbv : directNames mirrorsGraph ⟨0⟩ = .ok ∅).symm.trans hnames)
  exact ⟨start, imports, past, outcome.collection, hopen, hcourse, hsettled,
    hstates 3 past none outcome.collection hcourse⟩

end CrateScope
