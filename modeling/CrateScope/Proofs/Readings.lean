import CrateScope.Proofs.Opening
import CrateScope.Proofs.Permanence
import Mathlib

/-!
# What a lookup reads

A path is looked up name by name, and in each namespace for itself: the names before the last one
as types, the last one in the namespace that is asked for.  On its way the lookup reads some slots
of the crate, the names of crates and the macros that are known everywhere.  All else that it
relies on, the tree and the finished maps of other crates, is the same in every state of a
collection.

So an import that is looked up again later means something else only if one of the places that it
read gives another answer.  A place that a declaration or a named import had filled does not: only
those that were still open can, free slots and slots that a glob held among them.  That happens,
since an import is carried out as soon as its path means anything at all.

## Main definitions

* `Reading` — a place that a lookup reads and that imports can change.
* `View.followIn`, `View.startIn` — a lookup in one namespace.
* `View.reads` — the places that it reads, in their order.
* `View.SameNames` — two views in which the same names are bound.
* `Collection.Lasting` — a place whose answer is final.

## Main results

* `View.SameGround.resolve_stable` — a lookup depends on the places that it reads only.
* `View.SameNames.resolve` — only lone names depend on the macros that are known everywhere.
* `settled_imports_mean_what_they_read` — when a crate is finished, an import that was carried out
  means what was recorded for it, unless a place that it read was still open and changed.
-/

namespace CrateScope

/-- A place from which a lookup takes an answer and which imports can change. -/
inductive Reading where
  /-- One namespace of a name in a module of the crate. -/
  | slot (slot : Slot)
  /-- A name of the crates that can start any path. -/
  | crateName (name : Name)
  /-- A name of the macros that are in scope everywhere. -/
  | macroName (name : Name)
  deriving DecidableEq, Repr

/-- Two views give the same answer in a place. -/
def Reading.Agrees (view view' : View) : Reading → Prop
  | .slot s => view'.own.binding? s = view.own.binding? s
  | .crateName name => view'.own.externPrelude.get? name = view.own.externPrelude.get? name
  | .macroName name => view'.own.macroPrelude.get? name = view.own.macroPrelude.get? name

/-- The namespace in which a name is looked up that comes before some others in a path, when the
path is looked up in the namespace `ns`. -/
def spaceBefore (ns : Namespace) (names : List Name) : Namespace :=
  if names.isEmpty then ns else .types

/-- A path is a single name in scope. -/
def Path.IsLoneName (path : Path) : Prop := path.anchor = .plain ∧ path.segments.length = 1

namespace View

/-! ### A lookup in one namespace -/

/-- What some names mean in a namespace, one inside the other, starting from inside of a binding. -/
def followIn (view : View) (viewer : LocalId) (ns : Namespace) :
    Binding → List Name → Option Binding
  | b, [] => some b
  | host, name :: names =>
    if host.isModuleOrEnum then
      match view.locate? host.path with
      | none => none
      | some inside =>
        (((view.meaning inside name).visible view.tree viewer).get (spaceBefore ns names)).bind
          (followIn view viewer ns · names)
    else none

/-- What the start of a path means in the namespace in which it is looked up, and the names that
are left. -/
def startIn (view : View) (m : LocalId) (path : Path) (use : PathUse) (ns : Namespace) :
    Option (Binding × List Name) :=
  match view.start m path use with
  | .error _ => none
  | .ok (meaning, names) => (meaning.get (spaceBefore ns names)).map (·, names)

theorem get_follow (view : View) (viewer : LocalId) (leavesCrate : Bool) (ns : Namespace)
    (meaning : Meaning) (names : List Name) :
    (view.follow viewer leavesCrate meaning names).meaning.get ns
      = (meaning.get (spaceBefore ns names)).bind (view.followIn viewer ns · names) := by
  induction names generalizing meaning leavesCrate with
  | nil => cases h : meaning.get ns <;> simp [follow, spaceBefore, followIn, h]
  | cons name names ih =>
    rw [follow]
    change _ = (meaning.types).bind _
    cases meaning.types with
    | none => exact Meaning.get_empty ns
    | some host =>
      simp only [Option.bind_some, followIn]
      split
      · cases view.locate? host.path with
        | none => exact Meaning.get_empty ns
        | some inside =>
          simp only
          split
          · next hempty =>
            rw [Meaning.isEmpty_iff.1 hempty, Meaning.get_empty]
            exact Meaning.get_empty ns
          · exact ih _ _
      · exact Meaning.get_empty ns

/-- A path is looked up in each namespace for itself. -/
theorem get_resolve (view : View) (m : LocalId) (path : Path) (use : PathUse) (ns : Namespace) :
    (view.resolve m path use).meaning.get ns
      = (view.startIn m path use ns).bind fun r => view.followIn m ns r.1 r.2 := by
  unfold resolve startIn
  cases view.start m path use with
  | error miss => exact Meaning.get_empty ns
  | ok r =>
    simp only
    rw [get_follow, Option.bind_map]
    rfl

/-- The start of a plain path, before it is asked whether that means anything at all. -/
theorem startIn_plain (view : View) {m : LocalId} {path : Path} {use : PathUse} {ns : Namespace}
    {first : Name} {rest : List Name} (hanchor : path.anchor = .plain)
    (hsegments : path.segments = first :: rest) :
    view.startIn m path use ns =
      ((if use = .inImport ∧ view.own.edition.hasUniformPaths = false then
          view.meaningFromRoot first
        else view.meaningInScope m first rest.isEmpty).get
          (spaceBefore ns rest)).map (·, rest) := by
  unfold startIn start
  rw [hanchor, hsegments]
  simp only
  generalize (if use = .inImport ∧ view.own.edition.hasUniformPaths = false then
    view.meaningFromRoot first else view.meaningInScope m first rest.isEmpty) = meaning
  by_cases hempty : meaning.isEmpty
  · rw [if_pos hempty, Meaning.isEmpty_iff.1 hempty, Meaning.get_empty]
    rfl
  · rw [if_neg hempty]

/-- Where paths are uniform, an absolute path starts from the crate that its first name means. -/
theorem startIn_absolute (view : View) {m : LocalId} {path : Path} {use : PathUse} {ns : Namespace}
    {first : Name} {rest : List Name} (hanchor : path.anchor = .absolute)
    (hsegments : path.segments = first :: rest) (huniform : view.own.edition.hasUniformPaths) :
    view.startIn m path use ns =
      ((view.externMeaning first).get (spaceBefore ns rest)).map (·, rest) := by
  unfold startIn start externMeaning
  rw [hanchor, hsegments]
  simp only [if_pos huniform]
  cases view.own.externPrelude.get? first with
  | none =>
    rw [Meaning.get_empty]
    rfl
  | some root => rfl

/-! ### The places that are read -/

/-- The places that are read for a name in scope of a module.  The later ones are read only if the
earlier ones have nothing. -/
def nameReads (view : View) (m : LocalId) (name : Name) (space : Namespace) (isWholePath : Bool) :
    List Reading :=
  .slot ⟨m, name, space⟩ ::
    if (view.own.binding? ⟨m, name, space⟩).isSome then []
    else
      match space with
      | .types => [.crateName name]
      | .values => []
      | .macros =>
        if isWholePath = true ∧ (view.preludeMeaning name).get .macros = none then [.macroName name]
        else []

/-- The places that are read for the start of a path. -/
def startReads (view : View) (m : LocalId) (path : Path) (use : PathUse) (ns : Namespace) :
    List Reading :=
  match path.anchor, path.segments with
  | .plain, first :: rest =>
    if use = .inImport ∧ view.own.edition.hasUniformPaths = false then
      view.nameReads .root first (spaceBefore ns rest) false
    else view.nameReads m first (spaceBefore ns rest) rest.isEmpty
  | .absolute, first :: rest =>
    if view.own.edition.hasUniformPaths = true ∧ spaceBefore ns rest = .types then
      [.crateName first]
    else []
  | _, _ => []

/-- The places that are read for the other names of a path. -/
def followReads (view : View) (viewer : LocalId) (ns : Namespace) :
    Binding → List Name → List Reading
  | _, [] => []
  | host, name :: names =>
    if host.isModuleOrEnum then
      match view.locate? host.path with
      | none => []
      | some inside =>
        (if inside.crate = view.crate then [.slot ⟨inside.index, name, spaceBefore ns names⟩]
          else []) ++
        match ((view.meaning inside name).visible view.tree viewer).get (spaceBefore ns names) with
        | none => []
        | some b => followReads view viewer ns b names
    else []

/-- The places that are read when a path is looked up in a namespace. -/
def reads (view : View) (m : LocalId) (path : Path) (use : PathUse) (ns : Namespace) :
    List Reading :=
  view.startReads m path use ns ++
    match view.startIn m path use ns with
    | none => []
    | some (b, names) => view.followReads m ns b names

/-! ### Views that differ only there -/

/-- Two views of a crate have the same modules, dependencies and prelude. -/
structure SameGround (view view' : View) : Prop where
  tree : view'.tree = view.tree
  edition : view'.own.edition = view.own.edition
  prelude : view'.own.prelude = view.own.prelude
  dependencies : view'.dependencies = view.dependencies
  foreign : ∀ p, view.own.prelude = some p → p.crate ≠ view.crate

variable {view view' : View}

/-- The meaning of a name in a module of the crate is read from its slots. -/
theorem get_meaning_own {inside : ModuleId} (h : inside.crate = view.crate) (name : Name)
    (ns : Namespace) :
    (view.meaning inside name).get ns = view.own.binding? ⟨inside.index, name, ns⟩ := by
  unfold meaning mapOf?
  rw [if_pos h]
  rfl

/-- The binding of a module depends on the trees only. -/
theorem moduleBinding_congr (htree : view'.tree = view.tree)
    (hdependencies : view'.dependencies = view.dependencies) (m : ModuleId) :
    view'.moduleBinding m = view.moduleBinding m := by
  have htree' : view'.own.tree = view.own.tree := htree
  have hcrate : view'.crate = view.crate := congrArg ModuleTree.crate htree
  unfold moduleBinding mapOf?
  rw [hcrate, hdependencies]
  by_cases hown : m.crate = view.crate
  · simp only [if_pos hown, CrateMap.moduleBinding, htree']
  · simp only [if_neg hown]

namespace SameGround

variable (h : view.SameGround view')

include h

theorem crate : view'.crate = view.crate := congrArg ModuleTree.crate h.tree

theorem meaning_foreign {inside : ModuleId} (hforeign : inside.crate ≠ view.crate) (name : Name) :
    view'.meaning inside name = view.meaning inside name := by
  unfold meaning mapOf?
  rw [h.crate, if_neg hforeign, if_neg hforeign, h.dependencies]

theorem moduleBinding (m : ModuleId) : view'.moduleBinding m = view.moduleBinding m :=
  moduleBinding_congr h.tree h.dependencies m

theorem externMeaning {name : Name} (hcrate : (Reading.crateName name).Agrees view view') :
    view'.externMeaning name = view.externMeaning name := by
  have hname : view'.own.externPrelude.get? name = view.own.externPrelude.get? name := hcrate
  unfold View.externMeaning
  rw [hname]
  cases view.own.externPrelude.get? name with
  | none => rfl
  | some root => simp only [h.moduleBinding]

theorem preludeMeaning (name : Name) : view'.preludeMeaning name = view.preludeMeaning name := by
  unfold View.preludeMeaning
  rw [h.prelude]
  cases hp : view.own.prelude with
  | none => rfl
  | some p => simp only [h.crate, h.meaning_foreign (h.foreign p hp)]

/-- Crates have names among the types only. -/
theorem get_externMeaning (name : Name) (space : Namespace)
    (hcrate : space = .types → (Reading.crateName name).Agrees view view') :
    (view'.externMeaning name).get space = (view.externMeaning name).get space := by
  by_cases htypes : space = .types
  · rw [h.externMeaning (hcrate htypes)]
  · have hnone : ∀ v : View, (v.externMeaning name).get space = none := by
      intro v
      unfold View.externMeaning
      split
      · rw [Meaning.only, Meaning.get_set, if_neg htypes, Meaning.get_empty]
      · exact Meaning.get_empty space
    rw [hnone, hnone]

omit h in
variable (view view') in
/-- The macros that are known everywhere mean nothing but macros. -/
theorem get_macroMeaning (name : Name) (space : Namespace)
    (hknown : space = .macros → (Reading.macroName name).Agrees view view') :
    (view'.macroMeaning name).get space = (view.macroMeaning name).get space := by
  by_cases hmacros : space = .macros
  · have hname : view'.own.macroPrelude.get? name = view.own.macroPrelude.get? name :=
      hknown hmacros
    unfold View.macroMeaning
    rw [hname]
  · have hnone : ∀ v : View, (v.macroMeaning name).get space = none := by
      intro v
      unfold View.macroMeaning
      split
      · rw [Meaning.only, Meaning.get_set, if_neg hmacros, Meaning.get_empty]
      · exact Meaning.get_empty space
    rw [hnone, hnone]

section Name

variable {m : LocalId} {name : Name} {space : Namespace}

theorem get_meaningInScope {isWholePath : Bool}
    (hreads : ∀ r ∈ view.nameReads m name space isWholePath, r.Agrees view view') :
    (view'.meaningInScope m name isWholePath).get space
      = (view.meaningInScope m name isWholePath).get space := by
  have hslot : view'.own.binding? ⟨m, name, space⟩ = view.own.binding? ⟨m, name, space⟩ :=
    hreads _ List.mem_cons_self
  have hown : (view'.own.meaning m name).get space = (view.own.meaning m name).get space := hslot
  unfold meaningInScope
  by_cases hbound : (view.own.binding? ⟨m, name, space⟩).isSome
  · -- The slot is read first, and nothing else then.
    obtain ⟨b, hb⟩ := Option.isSome_iff_exists.1 hbound
    have hb' : (view.own.meaning m name).get space = some b := hb
    cases isWholePath <;> simp [hown, hb']
  · have hrest : ∀ r ∈ (match space with
        | .types => [Reading.crateName name]
        | .values => []
        | .macros =>
          if isWholePath = true ∧ (view.preludeMeaning name).get .macros = none then
            [Reading.macroName name]
          else []), r.Agrees view view' := by
      intro r hr
      refine hreads r (List.mem_cons_of_mem _ ?_)
      rw [if_neg hbound]
      exact hr
    have hextern := h.get_externMeaning name space (by rintro rfl; exact hrest _ (by simp))
    cases hwhole : isWholePath with
    | false => simp [hown, hextern, h.preludeMeaning]
    | true =>
      by_cases hprelude : (view.preludeMeaning name).get space = none
      · have hknown := get_macroMeaning view view' name space (by
          rintro rfl
          exact hrest _ (by simp [hwhole, hprelude]))
        simp [hown, hextern, h.preludeMeaning, hknown]
      · obtain ⟨b, hb⟩ := Option.ne_none_iff_exists'.1 hprelude
        simp [hown, hextern, h.preludeMeaning, hb]

theorem get_meaningFromRoot
    (hreads : ∀ r ∈ view.nameReads .root name space false, r.Agrees view view') :
    (view'.meaningFromRoot name).get space = (view.meaningFromRoot name).get space := by
  have hslot : view'.own.binding? ⟨.root, name, space⟩ = view.own.binding? ⟨.root, name, space⟩ :=
    hreads _ List.mem_cons_self
  have hown : (view'.own.meaning .root name).get space = (view.own.meaning .root name).get space :=
    hslot
  unfold meaningFromRoot
  by_cases hbound : (view.own.binding? ⟨.root, name, space⟩).isSome
  · obtain ⟨b, hb⟩ := Option.isSome_iff_exists.1 hbound
    have hb' : (view.own.meaning .root name).get space = some b := hb
    simp [hown, hb']
  · have hextern := h.get_externMeaning name space (by
      rintro rfl
      exact hreads _ (by simp [nameReads, hbound]))
    simp [hown, hextern]

end Name

theorem startIn_congr {m : LocalId} {path : Path} {use : PathUse} {ns : Namespace}
    (hreads : ∀ r ∈ view.startReads m path use ns, r.Agrees view view') :
    view'.startIn m path use ns = view.startIn m path use ns := by
  have hmodule : ∀ target, view'.ownModule target = view.ownModule target := by
    intro target
    unfold ownModule
    rw [h.tree, h.moduleBinding]
  unfold startReads at hreads
  cases hanchor : path.anchor with
  | crate =>
    unfold startIn start
    rw [hanchor]
    simp only [hmodule]
  | super levels =>
    unfold startIn start
    rw [hanchor]
    simp only [hmodule, h.tree]
  | absolute =>
    cases hsegments : path.segments with
    | nil =>
      unfold startIn start
      rw [hanchor, hsegments]
      simp only [hmodule, h.edition]
    | cons first rest =>
      rw [hanchor, hsegments] at hreads
      by_cases huniform : view.own.edition.hasUniformPaths
      · have huniform' : view'.own.edition.hasUniformPaths := by rwa [h.edition]
        have hcrate : spaceBefore ns rest = .types → (Reading.crateName first).Agrees view view' :=
          fun htypes => hreads (.crateName first) (by simp [huniform, htypes])
        rw [view.startIn_absolute hanchor hsegments huniform,
          view'.startIn_absolute hanchor hsegments huniform', h.get_externMeaning first _ hcrate]
      · unfold startIn start
        rw [hanchor, hsegments]
        simp only [hmodule, h.edition, if_neg huniform]
  | plain =>
    cases hsegments : path.segments with
    | nil =>
      unfold startIn start
      rw [hanchor, hsegments]
    | cons first rest =>
      rw [hanchor, hsegments] at hreads
      rw [view.startIn_plain hanchor hsegments, view'.startIn_plain hanchor hsegments, h.edition]
      by_cases hroot : use = .inImport ∧ view.own.edition.hasUniformPaths = false
      · simp only [if_pos hroot] at hreads ⊢
        rw [h.get_meaningFromRoot hreads]
      · simp only [if_neg hroot] at hreads ⊢
        rw [h.get_meaningInScope hreads]

theorem followIn_congr {viewer : LocalId} {ns : Namespace} {b : Binding} {names : List Name}
    (hreads : ∀ r ∈ view.followReads viewer ns b names, r.Agrees view view') :
    view'.followIn viewer ns b names = view.followIn viewer ns b names := by
  induction names generalizing b with
  | nil => rfl
  | cons name names ih =>
    rw [followIn, followIn, View.locate?_congr h.tree h.dependencies, h.tree]
    rw [followReads] at hreads
    split
    · next hhost =>
      rw [if_pos hhost] at hreads
      cases hlocate : view.locate? b.path with
      | none => rfl
      | some inside =>
        simp only [hlocate] at hreads ⊢
        have hinner : ((view'.meaning inside name).visible view.tree viewer).get
              (spaceBefore ns names)
            = ((view.meaning inside name).visible view.tree viewer).get (spaceBefore ns names) := by
          by_cases hown : inside.crate = view.crate
          · have hslot : view'.own.binding? ⟨inside.index, name, spaceBefore ns names⟩
                = view.own.binding? ⟨inside.index, name, spaceBefore ns names⟩ :=
              hreads (.slot _) (List.mem_append_left _ (by simp [hown]))
            unfold Meaning.visible
            rw [Meaning.get_filterVisibility, Meaning.get_filterVisibility,
              get_meaning_own (hown.trans h.crate.symm), get_meaning_own hown, hslot]
          · rw [h.meaning_foreign hown]
        rw [hinner]
        cases hb : ((view.meaning inside name).visible view.tree viewer).get
            (spaceBefore ns names) with
        | none => rfl
        | some next =>
          rw [hb] at hreads
          exact ih fun r hr => hreads r (List.mem_append_right _ hr)
    · rfl

/-- **A lookup depends on what it reads.**  Two views of a crate that differ only in places that a
lookup does not read give it the same binding. -/
theorem resolve_stable {m : LocalId} {path : Path} {use : PathUse} {ns : Namespace}
    (hreads : ∀ r ∈ view.reads m path use ns, r.Agrees view view') :
    (view'.resolve m path use).meaning.get ns = (view.resolve m path use).meaning.get ns := by
  rw [get_resolve, get_resolve,
    h.startIn_congr fun r hr => hreads r (List.mem_append_left _ hr)]
  cases hstart : view.startIn m path use ns with
  | none => rfl
  | some r =>
    obtain ⟨b, names⟩ := r
    refine h.followIn_congr fun r hr => hreads r (List.mem_append_right _ ?_)
    rw [hstart]
    exact hr

end SameGround

/-! ### Views in which the same names are bound -/

/-- Two views differ at most in the macros that are known everywhere and in what was told. -/
structure SameNames (view view' : View) : Prop where
  tree : view'.tree = view.tree
  dependencies : view'.dependencies = view.dependencies
  edition : view'.own.edition = view.own.edition
  scopes : view'.own.scopes = view.own.scopes
  externPrelude : view'.own.externPrelude = view.own.externPrelude
  prelude : view'.own.prelude = view.own.prelude

namespace SameNames

variable (h : view.SameNames view') {m : LocalId} {path : Path} {use : PathUse}

include h

theorem crate : view'.crate = view.crate := congrArg ModuleTree.crate h.tree

theorem own_meaning (m : LocalId) (name : Name) :
    view'.own.meaning m name = view.own.meaning m name := by
  unfold CrateMap.meaning CrateMap.scope
  rw [h.scopes]

theorem meaning (m : ModuleId) (name : Name) : view'.meaning m name = view.meaning m name := by
  unfold View.meaning mapOf?
  rw [h.crate, h.dependencies]
  by_cases hown : m.crate = view.crate
  · simp only [if_pos hown, h.own_meaning]
  · simp only [if_neg hown]

theorem moduleBinding (m : ModuleId) : view'.moduleBinding m = view.moduleBinding m :=
  moduleBinding_congr h.tree h.dependencies m

theorem externMeaning (name : Name) : view'.externMeaning name = view.externMeaning name := by
  unfold View.externMeaning
  simp only [h.externPrelude, h.moduleBinding]

theorem preludeMeaning (name : Name) : view'.preludeMeaning name = view.preludeMeaning name := by
  unfold View.preludeMeaning
  simp only [h.prelude, h.crate, h.meaning]

/-- A name in front of others is looked up without regard to the macros. -/
theorem meaningInScope {name : Name} {isWholePath : Bool}
    (hknown : isWholePath = true → view'.own.macroPrelude = view.own.macroPrelude) :
    view'.meaningInScope m name isWholePath = view.meaningInScope m name isWholePath := by
  unfold View.meaningInScope
  rw [h.own_meaning, h.externMeaning, h.preludeMeaning]
  cases isWholePath with
  | false => rfl
  | true =>
    unfold macroMeaning
    rw [hknown rfl]

/-- So is every path that is no lone name. -/
theorem start (hknown : path.IsLoneName → view'.own.macroPrelude = view.own.macroPrelude) :
    view'.start m path use = view.start m path use := by
  obtain ⟨anchor, segments⟩ := path
  unfold View.start ownModule
  simp only [h.moduleBinding, h.edition, h.externPrelude, h.tree]
  cases anchor with
  | plain =>
    cases segments with
    | nil => rfl
    | cons first rest =>
      have hroot : view'.meaningFromRoot first = view.meaningFromRoot first := by
        unfold meaningFromRoot
        rw [h.own_meaning, h.externMeaning]
      simp only [hroot]
      rw [h.meaningInScope fun hwhole => hknown ⟨rfl, ?_⟩]
      rw [List.isEmpty_iff.1 hwhole]
      rfl
  | crate => rfl
  | super levels => rfl
  | absolute => rfl

theorem follow (viewer : LocalId) (leavesCrate : Bool) (meaning : Meaning) (names : List Name) :
    view'.follow viewer leavesCrate meaning names
      = view.follow viewer leavesCrate meaning names := by
  induction names generalizing meaning leavesCrate with
  | nil => rfl
  | cons name names ih =>
    unfold View.follow
    simp only [locate?_congr h.tree h.dependencies, h.crate, h.tree, h.meaning, ih]

/-- The macros that are known everywhere make a difference to lone names only. -/
theorem resolve (hknown : path.IsLoneName → view'.own.macroPrelude = view.own.macroPrelude) :
    view'.resolve m path use = view.resolve m path use := by
  unfold View.resolve
  rw [h.start hknown]
  simp only [h.follow]

end SameNames

/-- What is not settled means nothing. -/
theorem resolve_eq_empty {m : LocalId} {path : Path} {use : PathUse}
    (h : (view.resolve m path use).settled = false) : (view.resolve m path use).meaning = ∅ := by
  have key : ∀ (names : List Name) (meaning : Meaning) (leavesCrate : Bool),
      (view.follow m leavesCrate meaning names).settled = false →
      (view.follow m leavesCrate meaning names).meaning = ∅ := by
    intro names
    induction names with
    | nil => intro meaning leavesCrate hs; cases hs
    | cons name names ih =>
      intro meaning leavesCrate
      rw [follow]
      cases meaning.types with
      | none => exact fun _ => rfl
      | some host =>
        simp only
        split
        · cases view.locate? host.path with
          | none => intro hs; cases hs
          | some inside =>
            simp only
            split
            · exact fun _ => rfl
            · exact ih _ _
        · intro hs; cases hs
  unfold resolve at h ⊢
  cases hstart : view.start m path use with
  | error miss => rfl
  | ok r =>
    rw [hstart] at h
    exact key _ _ _ h

end View

/-! ### Imports -/

/-- The path of the item that an import was found to name in a namespace. -/
def ImportStatus.item? (status : ImportStatus) (ns : Namespace) : Option ItemPath :=
  (status.meaning?.bind (·.get ns)).map Binding.path

namespace Collection

variable {imports : List Import} {c c' : Collection}

/-- The places that are read when the path of an import is looked up in a namespace.  The crates
that `extern crate` can name are known from the beginning. -/
def reads (c : Collection) (i : Import) (ns : Namespace) : List Reading :=
  match i.kind with
  | .externCrate _ => []
  | _ => c.view.reads i.module i.path .inImport ns

/-- The answer that a place gives is final: it is a slot that is bound otherwise than through a
glob, the name of a crate that no `extern crate` at the root can change, or a macro that is known
everywhere. -/
def Lasting (imports : List Import) (c : Collection) : Reading → Prop
  | .slot s => ∃ b, c.Firm s b
  | .crateName name => ∀ i ∈ imports, ¬ i.OpensCrate name
  | .macroName name => (c.map.macroPrelude.get? name).isSome

theorem Keeps.agrees (h : Keeps imports c c') {r : Reading} (hr : c.Lasting imports r) :
    r.Agrees c.view c'.view := by
  cases r with
  | slot s =>
    obtain ⟨b, hb⟩ := hr
    exact (h.firm s b hb).1.trans hb.1.symm
  | crateName name => exact h.crates name hr
  | macroName name =>
    obtain ⟨b, hb⟩ := Option.isSome_iff_exists.1 hr
    exact (h.macros name b hb).trans hb.symm

theorem Keeps.sameGround (h : Keeps imports c c')
    (hprelude : ∀ p, c.map.prelude = some p → p.crate ≠ c.view.crate) :
    c.view.SameGround c'.view :=
  ⟨h.tree, h.edition, h.prelude, h.dependencies, hprelude⟩

/-- What the status of a `use` says is what its path means. -/
theorem get_status {i : Import} (hk : ∀ macroUse, i.kind ≠ .externCrate macroUse) (ns : Namespace) :
    (c.status i).meaning?.bind (·.get ns)
      = (c.view.resolve i.module i.path .inImport).meaning.get ns := by
  have key : (if (c.view.resolve i.module i.path .inImport).meaning.isEmpty ||
        !(c.view.resolve i.module i.path .inImport).settled then .unresolved
      else if (c.view.resolve i.module i.path .inImport).leavesCrate ||
        (c.view.resolve i.module i.path .inImport).meaning.isFull then
        .resolved (c.view.resolve i.module i.path .inImport).meaning
      else ImportStatus.indeterminate
        (c.view.resolve i.module i.path .inImport).meaning).meaning?.bind (·.get ns)
      = (c.view.resolve i.module i.path .inImport).meaning.get ns := by
    split
    · next hfailed =>
      have hempty : (c.view.resolve i.module i.path .inImport).meaning = ∅ := by
        rcases Bool.or_eq_true_iff.1 hfailed with hempty | hopen
        · exact Meaning.isEmpty_iff.1 hempty
        · exact View.resolve_eq_empty (by simpa using hopen)
      rw [hempty, Meaning.get_empty]
      rfl
    · split <;> rfl
  unfold status
  cases hkind : i.kind with
  | named => exact key
  | glob => exact key
  | externCrate macroUse => exact absurd hkind (hk macroUse)

/-- In a state with the same modules, dependencies and prelude an import means the same, unless a
place that it read gives another answer. -/
theorem get_status_congr (hground : c.view.SameGround c'.view)
    (hdirect : c'.directCrates = c.directCrates) {i : Import} {ns : Namespace}
    (hreads : ∀ r ∈ c.reads i ns, r.Agrees c.view c'.view) :
    (c'.status i).meaning?.bind (·.get ns) = (c.status i).meaning?.bind (·.get ns) := by
  by_cases hk : ∃ macroUse, i.kind = .externCrate macroUse
  · obtain ⟨macroUse, hk⟩ := hk
    have htree : c'.tree = c.tree := hground.tree
    unfold status externRoot?
    rw [hk]
    simp only [hdirect, htree, hground.moduleBinding]
  · have hk' : ∀ macroUse, i.kind ≠ .externCrate macroUse := fun macroUse e => hk ⟨macroUse, e⟩
    rw [get_status hk', get_status hk', hground.resolve_stable]
    intro r hr
    refine hreads r ?_
    unfold reads
    split
    · next macroUse hkind => exact absurd hkind (hk' macroUse)
    · exact hr

/-- An import that is looked up again means the same item, unless a place that it read gives
another answer. -/
theorem Keeps.item?_status (h : Keeps imports c c')
    (hprelude : ∀ p, c.map.prelude = some p → p.crate ≠ c.view.crate) {i : Import} {ns : Namespace}
    (hreads : ∀ r ∈ c.reads i ns, r.Agrees c.view c'.view) :
    (c'.status i).item? ns = (c.status i).item? ns :=
  congrArg (Option.map Binding.path)
    (get_status_congr (h.sameGround hprelude) h.directCrates hreads)

end Collection

/-- **What imports mean.**  When the imports of a crate have been collected, in whatever order, the
record of each import that was carried out is what its path meant in an earlier state.  Looked up
again in the end it means the same item in each namespace, or as before nothing, unless one of the
places that it read was still open in that state and gives another answer now. -/
theorem settled_imports_mean_what_they_read {g : CrateGraph} {id : CrateId} {crate : CrateSource}
    {finished : CrateId → Option CrateMap} {settings : Settings} {start : Collection}
    {imports : List Import}
    (hopen : openBuild g id crate finished settings = .ok (start, imports))
    {order : List Import} (horder : ∀ i ∈ order, i ∈ imports) {limit : Nat}
    {isCancelled : Nat → Bool} {outcome : Collection.Outcome}
    (hrun : Collection.run limit isCancelled order start = .ok outcome) :
    ∃ past, Collection.Course limit imports start past none outcome.collection ∧
      ∀ x ∈ outcome.collection.settled, ∃ earlier ∈ past,
        x.status = earlier.status x.declaration ∧
        ∀ ns, (outcome.collection.status x.declaration).item? ns = x.status.item? ns ∨
          ∃ r ∈ earlier.reads x.declaration ns,
            ¬ earlier.Lasting imports r ∧ ¬ r.Agrees earlier.view outcome.collection.view := by
  have hstart := opened_of_openBuild hopen
  obtain ⟨past, hcourse⟩ := Collection.Course.of_run horder hrun
  refine ⟨past, hcourse, fun x hx => ?_⟩
  rcases hcourse.settled_after_past hstart.coherent x hx with
    hx | ⟨-, earlier, hearlier, hstatus, -⟩
  · rw [hstart.settled] at hx
    cases hx
  · refine ⟨earlier, hearlier, hstatus, fun ns => ?_⟩
    have hkeeps := (hcourse.keeps hstart.coherent).2 earlier hearlier
    by_contra hnot
    push Not at hnot
    obtain ⟨hchanged, hplaces⟩ := hnot
    apply hchanged
    rw [hstatus]
    refine hkeeps.item?_status (fun p hp => ?_) fun r hr => ?_
    · -- The crate and its prelude are those of the beginning.
      obtain ⟨hfirst, -⟩ := hcourse.keeps hstart.coherent
      rw [← hkeeps.prelude, hfirst.prelude] at hp
      have hcrate : earlier.view.crate = id := by
        rw [← hstart.crate, ← hfirst.tree, hkeeps.tree]
        rfl
      rw [hcrate]
      exact hstart.prelude p hp
    · by_contra hdisagree
      exact hdisagree (hplaces r hr fun hlasting => hdisagree (hkeeps.agrees hlasting))

/-! ### A crate whose imports come too early -/

/-- A crate with two imports that are carried out before their paths mean what they mean in the end.
The module `a` has `f` through a glob when `k` imports it from there, and is given another `f` by
name afterwards; and `p` is a type when the root imports it, and becomes a value as well. -/
def shifting : CrateSource where
  name := "shifting"
  root :=
    { items := [
        { name := some "p", kind := .struct .record },
        { name := some "v", kind := .function },
        { name := some "g", kind := .module
            { items := [{ name := some "f", visibility := .pub, kind := .function }] } },
        { name := some "h", kind := .module
            { items := [{ name := some "f", visibility := .pub, kind := .function }] } },
        { name := some "a", kind := .module
            { uses := [{ path := "crate::g::*", visibility := .pub },
                { path := "crate::z::f", visibility := .pub }] } },
        { name := some "k", kind := .module { uses := [{ path := "crate::a::f" }] } },
        { name := some "z", kind := .module
            { uses := [{ path := "crate::h::f", visibility := .pub }] } }]
      uses := [{ path := "p", alias? := some "q" }, { path := "v", alias? := some "p" }] }

/-- The graph that has only this crate. -/
def shiftingGraph : CrateGraph := ⟨[shifting], List.nodup_singleton _⟩

/-- The items that the imports of the crate named among the values when they were carried out, in
that order, and those that they name in the end. -/
theorem items_shifting : (openBuild shiftingGraph ⟨0⟩ shifting (fun _ => none) {} >>= fun r =>
    (Collection.run 3 (fun _ => false) r.2 r.1)).map (fun outcome =>
      outcome.collection.settled.map fun x =>
        (x.status.item? .values, (outcome.collection.status x.declaration).item? .values)) =
    .ok [(none, some ⟨⟨0⟩, ["v"]⟩),
      (some ⟨⟨0⟩, ["v"]⟩, some ⟨⟨0⟩, ["v"]⟩),
      (none, none),
      (some ⟨⟨0⟩, ["g", "f"]⟩, some ⟨⟨0⟩, ["h", "f"]⟩),
      (some ⟨⟨0⟩, ["h", "f"]⟩, some ⟨⟨0⟩, ["h", "f"]⟩),
      (some ⟨⟨0⟩, ["h", "f"]⟩, some ⟨⟨0⟩, ["h", "f"]⟩)] := by
  cbv

/-- The end of the collection is no fixed point: in this crate one import was carried out with an
item that its path does not name in the end, and one in fewer namespaces. -/
theorem settled_imports_can_go_stale : ∃ start imports outcome,
    openBuild shiftingGraph ⟨0⟩ shifting (fun _ => none) {} = .ok (start, imports) ∧
    Collection.run 3 (fun _ => false) imports start = .ok outcome ∧
    (∃ x ∈ outcome.collection.settled, x.status.item? .values = some ⟨⟨0⟩, ["g", "f"]⟩ ∧
      (outcome.collection.status x.declaration).item? .values = some ⟨⟨0⟩, ["h", "f"]⟩) ∧
    (∃ x ∈ outcome.collection.settled, x.status.item? .values = none ∧
      (outcome.collection.status x.declaration).item? .values = some ⟨⟨0⟩, ["v"]⟩) ∧
    ¬ ∀ x ∈ outcome.collection.settled, ∀ ns,
      (outcome.collection.status x.declaration).item? ns = x.status.item? ns := by
  obtain ⟨outcome, hcollect, hitems⟩ := ok_of_map items_shifting
  obtain ⟨⟨start, imports⟩, hopen, hrun⟩ := ok_of_bind hcollect
  have hfind : ∀ recorded now, (recorded, now) ∈ outcome.collection.settled.map (fun x =>
        (x.status.item? .values, (outcome.collection.status x.declaration).item? .values)) →
      ∃ x ∈ outcome.collection.settled, x.status.item? .values = recorded ∧
        (outcome.collection.status x.declaration).item? .values = now := by
    intro recorded now hmem
    obtain ⟨x, hx, hpair⟩ := List.mem_map.1 hmem
    exact ⟨x, hx, congrArg Prod.fst hpair, congrArg Prod.snd hpair⟩
  have hother := hfind (some ⟨⟨0⟩, ["g", "f"]⟩) (some ⟨⟨0⟩, ["h", "f"]⟩) (by rw [hitems]; simp)
  have hfewer := hfind none (some ⟨⟨0⟩, ["v"]⟩) (by rw [hitems]; simp)
  refine ⟨start, imports, outcome, hopen, hrun, hother, hfewer, fun hall => ?_⟩
  obtain ⟨x, hx, hrecorded, hnow⟩ := hother
  have hsame := hall x hx .values
  rw [hrecorded, hnow] at hsame
  exact absurd hsame (by decide)

/-- All six imports of this crate, the two that came too early among them, meant what was recorded
for them, and mean something else only because of what they read. -/
theorem settled_imports_mean_what_they_read_shifting : ∃ start imports outcome past,
    openBuild shiftingGraph ⟨0⟩ shifting (fun _ => none) {} = .ok (start, imports) ∧
    Collection.run 3 (fun _ => false) imports start = .ok outcome ∧
    outcome.collection.settled.length = 6 ∧
    Collection.Course 3 imports start past none outcome.collection ∧
    ∀ x ∈ outcome.collection.settled, ∃ earlier ∈ past,
      x.status = earlier.status x.declaration ∧
      ∀ ns, (outcome.collection.status x.declaration).item? ns = x.status.item? ns ∨
        ∃ r ∈ earlier.reads x.declaration ns,
          ¬ earlier.Lasting imports r ∧ ¬ r.Agrees earlier.view outcome.collection.view := by
  obtain ⟨outcome, hcollect, hitems⟩ := ok_of_map items_shifting
  obtain ⟨⟨start, imports⟩, hopen, hrun⟩ := ok_of_bind hcollect
  have hlength : outcome.collection.settled.length = 6 := by
    have := congrArg List.length hitems
    rwa [List.length_map] at this
  obtain ⟨past, hcourse, hall⟩ := settled_imports_mean_what_they_read hopen (fun i hi => hi) hrun
  exact ⟨start, imports, outcome, past, hopen, hrun, hlength, hcourse, hall⟩

end CrateScope
