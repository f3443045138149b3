import CrateScope.Proofs.Layout

/-!
# What the walk over an item tree makes of each import

The walk visits the root and every module inside of a module that it visits, unless the name of
that is taken already.  In each of them it takes up every leaf of a `use` tree and every
`extern crate` once, and there are three things that can become of it: it is queued as an import,
or it is reported as incomplete, or it is passed over in silence since it would bind `_`.  What it
is queued as depends on the modules around it only, and these are the same in the end.

## Main definitions

* `Directive` — a declaration in a module body that brings names in.
* `Directive.fate` — what becomes of it.
* `ModuleBody.traversed` — the module bodies that are visited, in that order.
* `CrateMap.directives` — what stands in them, with the numbers of their modules.
* `Outline.Takes` — what is queued and reported between two states of the walk.

## Main results

* `Outline.addBody_covers` — the walk visits these bodies and takes up what stands in them.
* `Outline.takes_ofBody` — so does the outline of a crate.
-/

namespace CrateScope

/-! ### Directives and their fates -/

/-- A declaration in a module body that brings names in. -/
inductive Directive where
  | use (leaf : UseLeaf)
  | externCrate (declaration : ExternCrate)

/-- The directives of a module body, in the order in which they are taken up. -/
def ModuleBody.directives (body : ModuleBody) : List Directive :=
  body.uses.map .use ++ body.externCrates.map .externCrate

/-- What becomes of a directive. -/
inductive Fate where
  /-- It waits as an import. -/
  | queued (declaration : Import)
  /-- It is reported, since a part of it is missing. -/
  | malformed (what : Incomplete)
  /-- It is passed over. -/
  | skipped

/-- The import that a directive becomes. -/
def Fate.import? : Fate → Option Import
  | queued declaration => some declaration
  | _ => none

/-- The diagnostic by which a directive of the module `m` is reported. -/
def Fate.report? (map : CrateMap) (m : LocalId) : Fate → Option Diagnostic
  | malformed what => some (.malformedItem (map.displayModule m) what)
  | _ => none

/-- The visibility that a mark gives to what is brought into the module `m`. -/
def CrateMap.judged (map : CrateMap) (m : LocalId) (mark : WrittenVisibility) (name : Name) :
    Visibility :=
  (Outline.judge { map } m (map.tree.pathOf m).segments mark name).2

/-- What becomes of a leaf of a `use` tree in the module `m`. -/
def UseLeaf.fate (map : CrateMap) (m : LocalId) (leaf : UseLeaf) : Fate :=
  match Outline.globForm leaf with
  | (text, isGlob) =>
    match Path.parse? text with
    | none => .malformed .usePath
    | some path =>
      if isGlob then
        let visibility := map.judged m leaf.visibility "*"
        .queued { module := m, path, name := none, visibility, kind := .glob }
      else
        match leaf.alias?.or path.last? with
        | none => .malformed .usePath
        | some name =>
          let visibility := map.judged m leaf.visibility name
          if name = underscore then .skipped
          else .queued { module := m, path, name := some name, visibility, kind := .named }

/-- What becomes of an `extern crate` in the module `m`. -/
def ExternCrate.fate (map : CrateMap) (m : LocalId) (declaration : ExternCrate) : Fate :=
  match declaration.name with
  | none => .malformed .externCrate
  | some crate =>
    let name := declaration.alias?.getD crate
    .queued
      { module := m
        path := .ofName crate
        name := if name = underscore then none else some name
        visibility := map.judged m declaration.visibility name
        kind := .externCrate declaration.macroUse }

/-- What becomes of a directive of the module `m`. -/
def Directive.fate (map : CrateMap) (m : LocalId) : Directive → Fate
  | .use leaf => leaf.fate map m
  | .externCrate declaration => declaration.fate map m

/-- Only a well-formed leaf that is no glob and would bind `_` is passed over. -/
theorem Directive.fate_eq_skipped_iff {map : CrateMap} {m : LocalId} {directive : Directive} :
    directive.fate map m = .skipped ↔ ∃ leaf text path, directive = .use leaf ∧
      Outline.globForm leaf = (text, false) ∧ Path.parse? text = some path ∧
      leaf.alias?.or path.last? = some underscore := by
  cases directive with
  | externCrate declaration =>
    refine ⟨fun h => ?_, fun ⟨_, _, _, h, _⟩ => by cases h⟩
    simp only [fate, ExternCrate.fate] at h
    split at h <;> cases h
  | use leaf =>
    simp only [fate, UseLeaf.fate]
    generalize hform : Outline.globForm leaf = form
    obtain ⟨text, isGlob⟩ := form
    cases hpath : Path.parse? text with
    | none => simp [hform, hpath]
    | some path =>
      cases isGlob with
      | true => simp [hform]
      | false =>
        cases hname : leaf.alias?.or path.last? with
        | none => simp [hform, hpath, hname, -Option.or_eq_some_iff]
        | some name =>
          by_cases hunderscore : name = underscore <;>
            simp [hform, hpath, hname, hunderscore, -Option.or_eq_some_iff]

/-- Whether a diagnostic tells what became of a directive: that it is incomplete, that it names
nothing, or that it would bind a name to another item. -/
def Diagnostic.isImportReport : Diagnostic → Bool
  | malformedItem _ .usePath => true
  | malformedItem _ .externCrate => true
  | unresolvedImport .. => true
  | ambiguousImport .. => true
  | _ => false

/-! ### What is visited -/

/-- The name that an item takes among the modules and enums around it. -/
def Item.opens? : Item → Option Name
  | ⟨name, _, kind⟩ => if kind.isModuleOrEnum then name else none

mutual

/-- The module bodies that are visited in the module at a path, with their paths, in the order in
which they are. -/
def ModuleBody.traversed (path : List Name) : ModuleBody → List (List Name × ModuleBody)
  | ⟨items, uses, externCrates⟩ =>
    (path, ⟨items, uses, externCrates⟩) :: Item.traversedAll path [] items

/-- The module bodies that are visited in some items of the module at a path, where some names are
taken already. -/
def Item.traversedAll (path : List Name) (taken : List Name) :
    List Item → List (List Name × ModuleBody)
  | [] => []
  | item :: items =>
    item.traversed path taken ++ Item.traversedAll path (item.opens?.toList ++ taken) items

/-- The module bodies that are visited in an item: none where its name is taken. -/
def Item.traversed (path : List Name) (taken : List Name) : Item → List (List Name × ModuleBody)
  | ⟨some name, _, .module body⟩ =>
    if name ∈ taken then [] else body.traversed (path ++ [name])
  | _ => []

end

/-- The module at a path.  What is not in the tree is taken for the root. -/
def CrateMap.moduleAt (map : CrateMap) (path : List Name) : LocalId :=
  (map.tree.descend? .root path).getD .root

/-- The directives of some bodies, each with the module in which it stands. -/
def CrateMap.directives (map : CrateMap) (bodies : List (List Name × ModuleBody)) :
    List (LocalId × Directive) :=
  bodies.flatMap fun visited => visited.2.directives.map (map.moduleAt visited.1, ·)

/-! ### Maps that grow -/

/-- The visibility that a mark gives depends on the modules around it only. -/
theorem Outline.judge_snd_congr (o o' : Outline) {m : LocalId} {chain : List Name}
    (hcrate : o'.map.tree.crate = o.map.tree.crate)
    (hparent : o'.map.tree.parent? m = o.map.tree.parent? m)
    (hscope : ∀ text,
      o'.map.restrictionScope? m chain text = o.map.restrictionScope? m chain text)
    (mark : WrittenVisibility) (name : Name) :
    (o'.judge m chain mark name).2 = (o.judge m chain mark name).2 := by
  have hglobal : ∀ a, o'.map.tree.global a = o.map.tree.global a := fun a => by
    unfold ModuleTree.global
    rw [hcrate]
  unfold judge
  cases mark with
  | pub => rfl
  | unmarked | pubSelf | pubCrate => simp only [hglobal]
  | pubSuper =>
    simp only [hparent, hglobal]
    cases o.map.tree.parent? m <;> rfl
  | pubIn text =>
    simp only [hscope, hglobal]
    cases o.map.restrictionScope? m chain text <;> rfl

/-- The map `later` has the modules of `map` and perhaps others, and the same edition. -/
structure CrateMap.Precedes (map later : CrateMap) : Prop where
  tree : map.tree.Extends later.tree
  edition : later.edition = map.edition

namespace CrateMap.Precedes

variable {map later : CrateMap} {m : LocalId}

theorem trans {last : CrateMap} (h : map.Precedes later) (h' : later.Precedes last) :
    map.Precedes last :=
  ⟨h.tree.trans h'.tree, h'.edition.trans h.edition⟩

variable (h : map.Precedes later) (hm : m.index < map.tree.size)

include h hm

theorem displayModule : later.displayModule m = map.displayModule m := by
  unfold CrateMap.displayModule
  rw [h.tree.pathOf m hm]

theorem restrictionScope? (chain : List Name) (text : String) :
    later.restrictionScope? m chain text = map.restrictionScope? m chain text := by
  unfold CrateMap.restrictionScope?
  simp only [h.edition, h.tree.encloser? hm]

/-- The visibility of what stands in a module does not change when other modules come in. -/
theorem judged (mark : WrittenVisibility) (name : Name) :
    later.judged m mark name = map.judged m mark name := by
  unfold CrateMap.judged
  rw [h.tree.pathOf m hm]
  exact Outline.judge_snd_congr { map } { map := later } h.tree.crate (h.tree.parent? m hm)
    (h.restrictionScope? hm _) mark name

end CrateMap.Precedes

namespace Outline

variable {o o' : Outline} {m : LocalId} {chain : List Name}

theorem Step.precedes (h : Step o o') : o.map.Precedes o'.map := by
  refine ⟨h.later.tree, ?_⟩
  cases h with
  | told | declared | queued => rfl
  | opened h => rw [(CrateMap.eq_of_addChild? h).2]

theorem Steps.precedes (h : Steps o o') : o.map.Precedes o'.map := by
  induction h with
  | refl => exact ⟨.refl _, rfl⟩
  | tail _ hstep ih => exact ih.trans hstep.precedes

/-- The visibility that a mark gives where the walk is, it gives to the same module in the end. -/
theorem AtModule.judged {later : CrateMap} (h : AtModule o m chain)
    (hlater : o.map.Precedes later) (mark : WrittenVisibility) (name : Name) :
    (o.judge m chain mark name).2 = later.judged m mark name := by
  rw [hlater.judged h.inside, CrateMap.judged, h.path]
  exact judge_snd_congr { map := o.map } o rfl rfl (fun _ => rfl) mark name

/-! ### What is taken up -/

/-- From `o` to `o'` the walk takes up some directives, each in a module that is one of `later`:
what they become is queued or reported in their order, and nothing else is. -/
structure Takes (later : CrateMap) (o : Outline) (directives : List (LocalId × Directive))
    (o' : Outline) : Prop where
  imports : o'.imports = o.imports ++ directives.filterMap fun (m, directive) =>
    (directive.fate later m).import?
  reports : o'.map.diagnostics.filter Diagnostic.isImportReport
    = o.map.diagnostics.filter Diagnostic.isImportReport ++
      directives.filterMap fun (m, directive) => (directive.fate later m).report? later m

variable {later : CrateMap} {directives directives' : List (LocalId × Directive)}

theorem Takes.append {o'' : Outline} (h : Takes later o directives o')
    (h' : Takes later o' directives' o'') : Takes later o (directives ++ directives') o'' where
  imports := by rw [h'.imports, h.imports, List.filterMap_append, List.append_assoc]
  reports := by rw [h'.reports, h.reports, List.filterMap_append, List.append_assoc]

/-- From `o` to `o'` no module comes in, and nothing is queued or reported that is an import. -/
structure Still (o o' : Outline) : Prop where
  tree : o'.map.tree = o.map.tree
  imports : o'.imports = o.imports
  reports : o'.map.diagnostics.filter Diagnostic.isImportReport
    = o.map.diagnostics.filter Diagnostic.isImportReport

namespace Still

/-- No module comes in and no import with what is told, and most diagnostics report no import. -/
theorem overlooks : Overlooks Diagnostic.isImportReport Still where
  refl _ := ⟨rfl, rfl, rfl⟩
  trans h h' := ⟨h'.tree.trans h.tree, h'.imports.trans h.imports, h'.reports.trans h.reports⟩
  tell _ _ _ := ⟨rfl, rfl, rfl⟩
  diagnose o diagnostic hreport := by
    refine ⟨rfl, rfl, ?_⟩
    change (o.map.diagnostics ++ [diagnostic]).filter _ = _
    rw [List.filter_append, List.filter_singleton, hreport]
    exact List.append_nil _
  unresolved _ _ _ := rfl

theorem takes (h : Still o o') : Takes later o [] o' :=
  ⟨by rw [h.imports]; simp, by rw [h.reports]; simp⟩

theorem declare (o : Outline) (m : LocalId) (name : Name) (meaning : Meaning) :
    Still o (o.declare m name meaning) := by
  refine overlooks.foldl (fun o entry => ?_) _ o
  simp only [declareSlot]
  split
  · exact ⟨rfl, rfl, rfl⟩
  · exact overlooks.refuse o _ rfl

theorem declareLeaf (o : Outline) (m : LocalId) (name : Name) (visibility : Visibility)
    (shape : NamespaceSet) : Still o (o.declareLeaf m name visibility shape) :=
  declare o m name _

theorem declareVariants (o : Outline) (enum : LocalId) (visibility : Visibility)
    (variants : List Variant) : Still o (o.declareVariants enum visibility variants) := by
  refine overlooks.foldl (fun o variant => ?_) variants o
  split
  · exact overlooks.skip o enum rfl
  · exact declareLeaf _ _ _ _ _

end Still

/-! ### Imports -/

section Directives

variable (h : AtModule o m chain)

include h

/-- A directive that is reported. -/
theorem takes_skip {what : Incomplete} {directive : Directive} (hlater : o.map.Precedes later)
    (hfate : directive.fate later m = .malformed what)
    (hreport : (Diagnostic.malformedItem (o.map.displayModule m) what).isImportReport = true) :
    Takes later o [(m, directive)] (o.skip m what) where
  imports := by simp [hfate, Fate.import?, skip, tell, diagnose]
  reports := by
    change (o.map.diagnostics
      ++ [Diagnostic.malformedItem (o.map.displayModule m) what]).filter _ = _
    rw [List.filter_append, List.filter_singleton, hreport]
    simp [hfate, Fate.report?, hlater.displayModule h.inside]

/-- A directive that is queued, with the visibility that its mark has in the module. -/
theorem takes_enqueue {mark : WrittenVisibility} {judged : Name} {path : Path} {name : Option Name}
    {kind : ImportKind} {directive : Directive} (hlater : o.map.Precedes later)
    (hfate : directive.fate later m = .queued
      { module := m, path, name, visibility := later.judged m mark judged, kind }) :
    Takes later o [(m, directive)] ((o.judge m chain mark judged).1.enqueue
      { module := m, path, name, visibility := (o.judge m chain mark judged).2, kind }) where
  imports := by
    simp [hfate, Fate.import?, enqueue, h.judged hlater,
      (Still.overlooks.judge o m chain mark judged).imports]
  reports := by
    simp only [List.filterMap_cons, hfate, Fate.report?, List.filterMap_nil, List.append_nil]
    exact (Still.overlooks.judge o m chain mark judged).reports

theorem takes_addUse (hlater : o.map.Precedes later) (leaf : UseLeaf) :
    Takes later o [(m, .use leaf)] (addUse m chain o leaf) := by
  unfold addUse
  generalize hform : globForm leaf = form
  obtain ⟨text, isGlob⟩ := form
  simp only
  cases hpath : Path.parse? text with
  | none => exact takes_skip h hlater (by simp [Directive.fate, UseLeaf.fate, hform, hpath]) rfl
  | some path =>
    cases isGlob with
    | true =>
      exact takes_enqueue h hlater (by simp [Directive.fate, UseLeaf.fate, hform, hpath])
    | false =>
      simp only [Bool.false_eq_true, if_false]
      generalize hname : leaf.alias?.or path.last? = bound
      cases bound with
      | none =>
        refine takes_skip h hlater ?_ rfl
        simp [Directive.fate, UseLeaf.fate, hform, hpath, hname]
      | some name =>
        simp only
        by_cases hunderscore : name = underscore
        · have hfate : (Directive.use leaf).fate later m = .skipped := by
            simp [Directive.fate, UseLeaf.fate, hform, hpath, hname, hunderscore]
          rw [if_pos hunderscore]
          refine ⟨?_, ?_⟩ <;> simp [hfate, Fate.import?, Fate.report?, tell]
        · rw [if_neg hunderscore]
          refine takes_enqueue h hlater ?_
          simp [Directive.fate, UseLeaf.fate, hform, hpath, hname, hunderscore]

theorem takes_addExternCrate (hlater : o.map.Precedes later) (declaration : ExternCrate) :
    Takes later o [(m, .externCrate declaration)] (addExternCrate m chain o declaration) := by
  unfold addExternCrate
  cases hname : declaration.name with
  | none => exact takes_skip h hlater (by simp [Directive.fate, ExternCrate.fate, hname]) rfl
  | some crate =>
    exact takes_enqueue h hlater (by simp [Directive.fate, ExternCrate.fate, hname])

end Directives

/-- A loop takes up what its rounds take up. -/
theorem takes_foldl {α : Type} {f : Outline → α → Outline} (directive : α → Directive)
    (hf : ∀ o a, AtModule o m chain → (f o a).map.Precedes later →
      Takes later o [(m, directive a)] (f o a))
    (hsteps : ∀ o a, AtModule o m chain → Steps o (f o a)) {as : List α}
    (h : AtModule o m chain) (hlater : (as.foldl f o).map.Precedes later) :
    Takes later o (as.map fun a => (m, directive a)) (as.foldl f o) := by
  induction as generalizing o with
  | nil => exact (Still.overlooks.refl o).takes
  | cons a as ih =>
    have hfirst := h.steps (hsteps o a h)
    have hrest : Steps (f o a) (as.foldl f (f o a)) :=
      foldl_steps (P := fun o => AtModule o m chain) (fun o ho a _ => hsteps o a ho)
        (fun _ _ ho hs => ho.steps hs) hfirst
    exact (hf o a h (hrest.precedes.trans hlater)).append (ih hfirst hlater)

/-- The directives of a module body are taken up before its items. -/
theorem takes_directives (h : AtModule o m chain) (items : List Item) (uses : List UseLeaf)
    (externCrates : List ExternCrate)
    (hlater : (externCrates.foldl (addExternCrate m chain)
      (uses.foldl (addUse m chain) o)).map.Precedes later) :
    Takes later o ((ModuleBody.mk items uses externCrates).directives.map (m, ·))
      (externCrates.foldl (addExternCrate m chain) (uses.foldl (addUse m chain) o)) := by
  have huses := uses_steps h uses
  have hcrates := externCrates_steps (h.steps huses) externCrates
  rw [ModuleBody.directives, List.map_append, List.map_map, List.map_map]
  refine (takes_foldl .use (fun o leaf ho hl => ?_) (fun o leaf ho => addUse_steps ho leaf) h
    (hcrates.precedes.trans hlater)).append (takes_foldl .externCrate
      (fun o declaration ho hl => ?_) (fun o declaration ho =>
        addExternCrate_steps ho declaration) (h.steps huses) hlater)
  · exact takes_addUse ho ((addUse_steps ho leaf).precedes.trans hl) leaf
  · exact takes_addExternCrate ho ((addExternCrate_steps ho declaration).precedes.trans hl)
      declaration

/-- No module comes in with an import. -/
theorem overlooksImports_tree :
    OverlooksImports (fun _ => false) fun o o' => o'.map.tree = o.map.tree where
  refl _ := rfl
  trans h h' := h'.trans h
  tell _ _ _ := rfl
  diagnose _ _ _ := rfl
  unresolved _ _ _ := rfl
  enqueue _ _ := rfl
  incomplete _ _ := rfl

/-! ### The walk -/

/-- In the module `m` the walk visits some bodies, from `o` to `o'`: their modules are found where
the paths say, what stands in them is taken up, and outside of `m` no older module gets a child. -/
structure Covers (later : CrateMap) (m : LocalId) (o : Outline)
    (bodies : List (List Name × ModuleBody)) (o' : Outline) : Prop where
  takes : Takes later o (later.directives bodies) o'
  found : ∀ visited ∈ bodies, later.tree.descend? .root visited.1
    = some (later.moduleAt visited.1)
  elsewhere : ∀ m' : LocalId, m'.index < o.map.tree.size → m' ≠ m →
    ∀ name, o'.map.tree.child? m' name = o.map.tree.child? m' name

theorem Covers.append {o'' : Outline} {bodies bodies' : List (List Name × ModuleBody)}
    (h : Covers later m o bodies o') (hsteps : Steps o o') (h' : Covers later m o' bodies' o'') :
    Covers later m o (bodies ++ bodies') o'' where
  takes := by
    rw [CrateMap.directives, List.flatMap_append]
    exact h.takes.append h'.takes
  found visited hvisited := (List.mem_append.1 hvisited).elim (h.found visited) (h'.found visited)
  elsewhere m' hm' hne name :=
    (h'.elsewhere m' (Nat.lt_of_lt_of_le hm' hsteps.later.tree.size) hne name).trans
      (h.elsewhere m' hm' hne name)

theorem Still.covers (h : Still o o') : Covers later m o [] o' :=
  ⟨h.takes, fun _ hvisited => absurd hvisited List.not_mem_nil, fun m' _ _ name => by rw [h.tree]⟩

/-- The names of the modules and enums in the module `m` that have been walked over. -/
def Taken (o : Outline) (m : LocalId) (taken : List Name) : Prop :=
  ∀ name, (o.map.tree.child? m name).isSome ↔ name ∈ taken

theorem Taken.still {taken : List Name} (h : Taken o m taken) (hs : Still o o') :
    Taken o' m taken := by
  unfold Taken
  rw [hs.tree]
  exact h

/-- No name is taken by what brings names into a module. -/
theorem Taken.afterImports {taken : List Name} (h : Taken o m taken) (chain : List Name)
    (uses : List UseLeaf) (externCrates : List ExternCrate) :
    Taken (externCrates.foldl (addExternCrate m chain) (uses.foldl (addUse m chain) o)) m
      taken := by
  unfold Taken
  rw [overlooksImports_tree.directives m chain o uses externCrates]
  exact h

/-- A module or enum whose name is taken is left out with everything inside. -/
theorem Taken.refused {taken : List Name} (h : Taken o m taken) {name : Name}
    (hname : name ∈ taken) :
    Covers later m o [] (o.refuse ⟨m, name, .types⟩) ∧
      Taken (o.refuse ⟨m, name, .types⟩) m (name :: taken) := by
  have hstill := Still.overlooks.refuse o ⟨m, name, .types⟩ rfl
  refine ⟨hstill.covers, Taken.still (fun n => ?_) hstill⟩
  rw [h n, List.mem_cons]
  exact ⟨Or.inr, fun hn => hn.elim (fun heq => heq ▸ hname) id⟩

/-- After a child came into the module `m`, a walk inside of the child leaves `m` alone. -/
theorem Covers.inside {o'' : Outline} {child : LocalId} {taken : List Name}
    {bodies : List (List Name × ModuleBody)} (hopened : Covers later m o [] o')
    (h : AtModule o m chain) (htaken : Taken o' m taken)
    (hsize : o.map.tree.size ≤ o'.map.tree.size)
    (hnew : o.map.tree.size ≤ child.index) (hcovers : Covers later child o' bodies o'') :
    Covers later m o bodies o'' ∧ Taken o'' m taken := by
  have hkeep : ∀ m' : LocalId, m'.index < o.map.tree.size → ∀ n,
      o''.map.tree.child? m' n = o'.map.tree.child? m' n := by
    intro m' hm' n
    refine hcovers.elsewhere m' (Nat.lt_of_lt_of_le hm' hsize) ?_ n
    rintro rfl
    omega
  refine ⟨⟨?_, hcovers.found, fun m' hm' hne' n => ?_⟩, fun n => ?_⟩
  · exact hopened.takes.append hcovers.takes
  · rw [hkeep m' hm' n]
    exact hopened.elsewhere m' hm' hne' n
  · rw [hkeep m h.inside n]
    exact htaken n

/-- A module or enum comes in unless its name is taken, and takes it then.  It has nothing inside at
first. -/
theorem openChild?_taken (later : CrateMap) (name : Name) (visibility : Visibility)
    (kind : ModuleKind) {taken : List Name} (h : AtModule o m chain) (htaken : Taken o m taken) :
    match o.openChild? m name visibility kind with
    | none => name ∈ taken
    | some (o', child) => name ∉ taken ∧ Covers later m o [] o' ∧ Taken o' m (name :: taken) ∧
        Taken o' child [] ∧ o'.map.tree.child? m name = some child ∧
        o.map.tree.size ≤ child.index := by
  unfold openChild?
  cases hadd : o.map.addChild? m name kind with
  | none =>
    rw [CrateMap.addChild?, Option.map_eq_none_iff] at hadd
    exact (htaken name).1 (ModuleTree.isSome_child?_of_addChild? h.inside hadd)
  | some r =>
    obtain ⟨map, child⟩ := r
    obtain ⟨htree, hmap⟩ := CrateMap.eq_of_addChild? hadd
    have hgrown := ModuleTree.grown_of_addChild? htree
    have hfree := ModuleTree.child?_of_addChild? htree
    have hstill := Still.declare { o with map } m name
      (.only .types (map.moduleBinding child visibility))
    have hnumber := hgrown.number
    have hne : child ≠ m := by
      rintro rfl
      have := h.inside
      omega
    simp only [Option.map_some]
    have hdiagnostics : map.diagnostics = o.map.diagnostics := by rw [hmap]
    refine ⟨fun hmem => ?_, ⟨?_, ?_, ?_⟩, Taken.still ?_ hstill, Taken.still ?_ hstill, ?_,
      Nat.le_of_eq hnumber.symm⟩
    · have hsome := (htaken name).2 hmem
      rw [hfree] at hsome
      cases hsome
    · refine ⟨?_, ?_⟩
      · rw [hstill.imports]
        exact (List.append_nil _).symm
      · rw [hstill.reports, show (Outline.mk map o.imports o.log).map.diagnostics
          = o.map.diagnostics from hdiagnostics]
        exact (List.append_nil _).symm
    · exact fun _ hvisited => absurd hvisited List.not_mem_nil
    · intro m' hm' hne' n
      rw [hstill.tree]
      exact (hgrown.child? m' n).trans (if_neg fun heq => hne' heq.1)
    · intro n
      change (map.tree.child? m n).isSome ↔ _
      rw [hgrown.child?, List.mem_cons, ← htaken n]
      by_cases hn : n = name <;> simp [hn]
    · intro n
      change (map.tree.child? child n).isSome ↔ _
      rw [hgrown.child?, if_neg fun heq => hne heq.1,
        ModuleTree.child?_eq_none_of_size_le (Nat.le_of_eq hnumber.symm)]
      simp
    · rw [hstill.tree]
      exact (hgrown.child? m name).trans (if_pos ⟨rfl, rfl⟩)

/-- An item that is no module is not visited. -/
theorem traversed_eq_nil {item : Item} (h : ∀ body, item.kind ≠ .module body) (path : List Name)
    (taken : List Name) : item.traversed path taken = [] := by
  rw [Item.traversed]
  rintro name mark body rfl
  exact h body rfl

/-- What is neither a module nor an enum takes no name from these. -/
theorem Still.covers_leaf {taken : List Name} (hs : Still o o') (htaken : Taken o m taken)
    (path : List Name) {item : Item} (hleaf : item.kind.isModuleOrEnum = false) :
    Covers later m o (item.traversed path taken) o' ∧
      Taken o' m (item.opens?.toList ++ taken) := by
  obtain ⟨name, mark, kind⟩ := item
  have hopens : (Item.mk name mark kind).opens? = none := if_neg (by simpa using hleaf)
  rw [hopens, traversed_eq_nil fun body hbody => by
    change kind = _ at hbody
    rw [hbody] at hleaf
    cases hleaf]
  exact ⟨hs.covers, htaken.still hs⟩

/-- The visibility of an item is judged before what it is is looked at. -/
theorem addItem_of_addKind {name : Name} {mark : WrittenVisibility} {kind : ItemKind}
    {bodies : List (List Name × ModuleBody)} {taken : List Name} (h : AtModule o m chain)
    (hkind : ∀ judged visibility, o.judge m chain mark name = (judged, visibility) →
      (addKind judged m chain name visibility kind).map.Precedes later →
      Covers later m judged bodies (addKind judged m chain name visibility kind) ∧
        Taken (addKind judged m chain name visibility kind) m taken)
    (hlater : (addItem o m chain ⟨some name, mark, kind⟩).map.Precedes later) :
    Covers later m o bodies (addItem o m chain ⟨some name, mark, kind⟩) ∧
      Taken (addItem o m chain ⟨some name, mark, kind⟩) m taken := by
  rw [addItem] at hlater ⊢
  obtain ⟨hcovers, htaken⟩ := hkind _ _ rfl hlater
  have hstill := Still.overlooks.judge o m chain mark name
  exact ⟨hstill.covers.append (judge_spec h.toAt chain mark name).1 hcovers, htaken⟩

mutual

/-- The walk over the contents of a module visits the bodies in it, this one first. -/
theorem addBody_covers {o : Outline} {m : LocalId} {chain : List Name} (h : AtModule o m chain)
    (htaken : Taken o m []) (hpath : later.tree.descend? .root chain = some m) :
    (body : ModuleBody) → (addBody o m chain body).map.Precedes later →
      Covers later m o (body.traversed chain) (addBody o m chain body)
  | ⟨items, uses, externCrates⟩ => by
    intro hlater
    have htree := overlooksImports_tree.directives m chain o uses externCrates
    rw [addBody] at hlater ⊢
    have hinner := h.steps (directives_steps h uses externCrates)
    have hitems := addItems_covers hinner (htaken.afterImports chain uses externCrates) hpath items
      hlater
    have hfirst := takes_directives h items uses externCrates
      ((addItems_steps hinner items).precedes.trans hlater)
    have hat : later.moduleAt chain = m := by
      unfold CrateMap.moduleAt
      rw [hpath]
      rfl
    rw [ModuleBody.traversed]
    refine ⟨?_, ?_, ?_⟩
    · rw [CrateMap.directives, List.flatMap_cons, hat]
      exact hfirst.append hitems.takes
    · intro visited hvisited
      rcases List.mem_cons.1 hvisited with rfl | hvisited
      · rw [hpath, hat]
      · exact hitems.found visited hvisited
    · intro m' hm' hne name
      rw [← htree] at hm' ⊢
      exact hitems.elsewhere m' hm' hne name

theorem addItems_covers {o : Outline} {m : LocalId} {chain : List Name} (h : AtModule o m chain)
    {taken : List Name} (htaken : Taken o m taken)
    (hpath : later.tree.descend? .root chain = some m) :
    (items : List Item) → (addItems o m chain items).map.Precedes later →
      Covers later m o (Item.traversedAll chain taken items) (addItems o m chain items)
  | [] => by
    intro _
    rw [Item.traversedAll]
    exact (Still.overlooks.refl o).covers
  | item :: items => by
    intro hlater
    have hsteps := addItem_steps h item
    rw [addItems] at hlater ⊢
    rw [Item.traversedAll]
    obtain ⟨hitem, htaken'⟩ := addItem_covers h htaken hpath item
      ((addItems_steps (h.steps hsteps) items).precedes.trans hlater)
    exact hitem.append hsteps (addItems_covers (h.steps hsteps) htaken' hpath items hlater)

theorem addItem_covers {o : Outline} {m : LocalId} {chain : List Name} (h : AtModule o m chain)
    {taken : List Name} (htaken : Taken o m taken)
    (hpath : later.tree.descend? .root chain = some m) :
    (item : Item) → (addItem o m chain item).map.Precedes later →
      Covers later m o (item.traversed chain taken) (addItem o m chain item) ∧
        Taken (addItem o m chain item) m (item.opens?.toList ++ taken)
  | ⟨none, mark, kind⟩ => by
    intro _
    have hstill : Still o (o.skip m .item) := Still.overlooks.skip o m rfl
    have hopens : (Item.mk none mark kind).opens? = none := ite_self none
    rw [addItem, hopens, Item.traversed]
    · exact ⟨hstill.covers, htaken.still hstill⟩
    · exact fun _ _ _ hitem => by cases hitem
  | ⟨some name, mark, kind⟩ => by
    obtain ⟨hsteps, hv⟩ := judge_spec h.toAt chain mark name
    have hstill := Still.overlooks.judge o m chain mark name
    refine addItem_of_addKind h fun judged visibility hjudged => ?_
    rw [hjudged] at hsteps hv hstill
    exact addKind_covers (h.steps hsteps) (htaken.still hstill) hpath name mark
      (h.visible hsteps hv) kind

theorem addKind_covers {o : Outline} {m : LocalId} {chain : List Name} (h : AtModule o m chain)
    {taken : List Name} (htaken : Taken o m taken)
    (hpath : later.tree.descend? .root chain = some m) (name : Name) (mark : WrittenVisibility)
    {visibility : Visibility} (hv : visibility.isVisibleFrom o.map.tree m = true) :
    (kind : ItemKind) → (addKind o m chain name visibility kind).map.Precedes later →
      Covers later m o ((Item.mk (some name) mark kind).traversed chain taken)
          (addKind o m chain name visibility kind) ∧
        Taken (addKind o m chain name visibility kind) m
          ((Item.mk (some name) mark kind).opens?.toList ++ taken)
  | .module body => by
    intro hlater
    have hchild := openChild?_taken later name visibility .module h htaken
    change Covers _ _ _ _ _ ∧ Taken _ _ (name :: taken)
    rw [addKind] at hlater ⊢
    rw [Item.traversed]
    cases hopen : o.openChild? m name visibility .module with
    | none =>
      rw [hopen] at hchild
      rw [if_pos hchild]
      exact htaken.refused hchild
    | some r =>
      obtain ⟨o', child⟩ := r
      rw [hopen] at hchild hlater
      obtain ⟨hfree, hopened, htaken', hempty, hfound, hnew⟩ := hchild
      obtain ⟨hsteps, hinner⟩ := openModule_steps h hv hopen
      have hbody := addBody_steps hinner body
      -- In the end the body is found below the module around it.
      have hpath' := ModuleTree.descend?_child hpath
        ((hbody.precedes.trans hlater).tree.child? m name child hfound)
      have hcovers := addBody_covers hinner hempty hpath' body hlater
      rw [if_neg hfree]
      exact hopened.inside h htaken' hsteps.later.tree.size hnew hcovers
  | .enum variants => by
    intro _
    have hchild := openChild?_taken later name visibility .enum h htaken
    change Covers _ _ _ _ _ ∧ Taken _ _ (name :: taken)
    rw [addKind, traversed_eq_nil fun body hbody => by cases hbody]
    cases hopen : o.openChild? m name visibility .enum with
    | none =>
      rw [hopen] at hchild
      exact htaken.refused hchild
    | some r =>
      obtain ⟨o', child⟩ := r
      rw [hopen] at hchild
      obtain ⟨-, hopened, htaken', -⟩ := hchild
      obtain ⟨hsteps, -⟩ := openChild?_steps h hv hopen
      have hstill := Still.declareVariants o' child visibility variants
      exact ⟨hopened.append hsteps hstill.covers, htaken'.still hstill⟩
  | .macroRules true => by
    intro _
    rw [addKind]
    exact (Still.declareLeaf o .root name .everywhere _).covers_leaf htaken chain rfl
  | .macroRules false => fun _ => (Still.declareLeaf o m name _ _).covers_leaf htaken chain rfl
  | .struct _ => fun _ => (Still.declareLeaf o m name _ _).covers_leaf htaken chain rfl
  | .union => fun _ => (Still.declareLeaf o m name _ _).covers_leaf htaken chain rfl
  | .trait => fun _ => (Still.declareLeaf o m name _ _).covers_leaf htaken chain rfl
  | .typeAlias => fun _ => (Still.declareLeaf o m name _ _).covers_leaf htaken chain rfl
  | .function => fun _ => (Still.declareLeaf o m name _ _).covers_leaf htaken chain rfl
  | .const => fun _ => (Still.declareLeaf o m name _ _).covers_leaf htaken chain rfl
  | .static => fun _ => (Still.declareLeaf o m name _ _).covers_leaf htaken chain rfl

end

/-! ### The outline of a crate -/

/-- Every directive of the outline of a crate that stands in a body that is visited is queued,
reported or passed over, in the order in which it is come to, and nothing else is queued or reported
as one. -/
theorem takes_ofBody (crate : CrateId) (name : String) (edition : Edition)
    (externPrelude : Listing Name ModuleId) (body : ModuleBody) {o : Outline}
    (ho : o = ofBody (.initial crate name edition externPrelude) body) :
    o.imports = (o.map.directives (body.traversed [])).filterMap (fun (m, directive) =>
        (directive.fate o.map m).import?) ∧
      o.map.diagnostics.filter Diagnostic.isImportReport
        = (o.map.directives (body.traversed [])).filterMap (fun (m, directive) =>
          (directive.fate o.map m).report? o.map m) ∧
      ∀ visited ∈ body.traversed [], o.map.tree.descend? .root visited.1
        = some (o.map.moduleAt visited.1) := by
  have hstart := atModule_initial crate name edition externPrelude
  have htaken : Taken { map := .initial crate name edition externPrelude } .root [] := by
    intro n
    refine iff_of_false (fun hsome => ?_) List.not_mem_nil
    cases hsome
  -- What is told in the end changes nothing of the map.
  have hmap : o.map
      = (addBody { map := .initial crate name edition externPrelude } .root [] body).map := by
    rw [ho]
    rfl
  have himports : o.imports
      = (addBody { map := .initial crate name edition externPrelude } .root [] body).imports := by
    rw [ho]
    rfl
  rw [hmap, himports]
  have hroot (later : CrateMap) : later.tree.descend? .root [] = some .root := rfl
  have hcovers := addBody_covers hstart htaken (hroot _) body ⟨.refl _, rfl⟩
  obtain ⟨himports', hreports⟩ := hcovers.takes
  exact ⟨himports', hreports, hcovers.found⟩

end Outline

end CrateScope
