import CrateScope.Proofs.Declarations
import CrateScope.Resolution

/-!
# What a lookup finds

The first name of a path is taken as it is found, in one of a few places where paths can start.  The
later names are looked up inside of what was found before them, with an eye to who asks.  So what is
to hold of everything that paths mean has to hold of those places, and of what modules hold as far
as the one that asks may name it.

Privacy is the first case of this: a lookup respects it only where all places do in which paths can
start.

## Main definitions

* `View.Start` — the places where the paths of a module can start.
* `View.Finds` — all that lookups from a module can come to.
* `View.followOr` — a lookup with another result where a module is missing.
* `Meaning.NameableFrom` — a module may name all bindings of a meaning.
* `View.Guarded` — what every place in which paths can start owes to privacy.

## Main results

* `View.finds_resolve` — what a path means is found in this way.
* `View.Guarded.resolve` — in a guarded view a module may name whatever its paths mean.
-/

namespace CrateScope

theorem Meaning.get_only_eq_some_iff {ns ns' : Namespace} {b b' : Binding} :
    (only ns b).get ns' = some b' ↔ ns' = ns ∧ b = b' := by
  unfold only
  rw [get_set, get_empty]
  split <;> simp [*]

namespace View

variable {view : View} {m : LocalId}

/-! ### Where paths start -/

/-- The bindings with which the paths of the module `m` can start: those of the names in it or in
the root, a module around it, a crate that can be named, the names of the prelude, of which only the
public ones count if it is of another crate, and the macros that are known everywhere. -/
inductive Start (view : View) (m : LocalId) : Namespace → Binding → Prop
  | named {outer : LocalId} (houter : outer = m ∨ outer = .root) {name : Name} {ns : Namespace}
      {b : Binding} (hb : view.own.binding? ⟨outer, name, ns⟩ = some b) : Start view m ns b
  | enclosing {outer : LocalId} (houter : outer = .root ∨ outer ∈ view.tree.ancestors m) :
      Start view m .types (view.moduleBinding (view.tree.global outer))
  | crate {name : Name} {root : ModuleId} (hroot : view.own.externPrelude.get? name = some root) :
      Start view m .types (view.moduleBinding root)
  | ofPrelude {p : ModuleId} (hp : view.own.prelude = some p) {name : Name} {ns : Namespace}
      {b : Binding} (hb : (view.meaning p name).get ns = some b)
      (hpublic : p.crate ≠ view.crate → b.visibility.isPublic = true) : Start view m ns b
  | known {name : Name} {b : Binding} (hb : view.own.macroPrelude.get? name = some b) :
      Start view m .macros b

theorem start_externMeaning {name : Name} {ns : Namespace} {b : Binding}
    (hb : (view.externMeaning name).get ns = some b) : view.Start m ns b := by
  unfold externMeaning at hb
  split at hb
  · next root hroot =>
    obtain ⟨rfl, rfl⟩ := Meaning.get_only_eq_some_iff.1 hb
    exact .crate hroot
  · rw [Meaning.get_empty] at hb
    cases hb

theorem start_preludeMeaning {name : Name} {ns : Namespace} {b : Binding}
    (hb : (view.preludeMeaning name).get ns = some b) : view.Start m ns b := by
  unfold preludeMeaning at hb
  split at hb
  · rw [Meaning.get_empty] at hb
    cases hb
  · next p hp =>
    split at hb
    · next hown => exact .ofPrelude hp hb fun hforeign => absurd hown hforeign
    · rw [Meaning.publicPart, Meaning.get_filterVisibility, Option.filter_eq_some_iff] at hb
      exact .ofPrelude hp hb.1 fun _ => hb.2

theorem start_macroMeaning {name : Name} {ns : Namespace} {b : Binding}
    (hb : (view.macroMeaning name).get ns = some b) : view.Start m ns b := by
  unfold macroMeaning at hb
  split at hb
  · next hknown =>
    obtain ⟨rfl, rfl⟩ := Meaning.get_only_eq_some_iff.1 hb
    exact .known hknown
  · rw [Meaning.get_empty] at hb
    cases hb

theorem start_meaningFromRoot {name : Name} {ns : Namespace} {b : Binding}
    (hb : (view.meaningFromRoot name).get ns = some b) : view.Start m ns b := by
  rw [meaningFromRoot, Meaning.get_orElse, Option.or_eq_some_iff] at hb
  rcases hb with hb | ⟨-, hb⟩
  · exact .named (Or.inr rfl) hb
  · exact start_externMeaning hb

theorem start_meaningInScope {name : Name} {isWholePath : Bool} {ns : Namespace} {b : Binding}
    (hb : (view.meaningInScope m name isWholePath).get ns = some b) : view.Start m ns b := by
  have hplain : ∀ b, (((view.own.meaning m name).orElse (view.externMeaning name)).orElse
      (view.preludeMeaning name)).get ns = some b → view.Start m ns b := by
    intro b hb
    rw [Meaning.get_orElse, Option.or_eq_some_iff, Meaning.get_orElse, Option.or_eq_some_iff] at hb
    rcases hb with (hb | ⟨-, hb⟩) | ⟨-, hb⟩
    · exact .named (Or.inl rfl) hb
    · exact start_externMeaning hb
    · exact start_preludeMeaning hb
  unfold meaningInScope at hb
  dsimp only at hb
  split at hb
  · rw [Meaning.get_orElse, Option.or_eq_some_iff] at hb
    rcases hb with hb | ⟨-, hb⟩
    · exact hplain b hb
    · exact start_macroMeaning hb
  · exact hplain b hb

/-- The first step of a path leads to one of these places. -/
theorem start_of_start {path : Path} {use : PathUse} {meaning : Meaning} {names : List Name}
    (hs : view.start m path use = .ok (meaning, names)) {ns : Namespace} {b : Binding}
    (hb : meaning.get ns = some b) : view.Start m ns b := by
  unfold start at hs
  split at hs
  · cases hs
    obtain ⟨rfl, rfl⟩ := Meaning.get_only_eq_some_iff.1 hb
    exact .enclosing (Or.inl rfl)
  · split at hs
    · next above habove =>
      cases hs
      obtain ⟨rfl, rfl⟩ := Meaning.get_only_eq_some_iff.1 hb
      exact .enclosing (Or.inr (ModuleTree.mem_ancestors_of_climb? habove))
    · cases hs
  · split at hs
    · split at hs
      · cases hs
      · split at hs
        · next root hroot =>
          cases hs
          obtain ⟨rfl, rfl⟩ := Meaning.get_only_eq_some_iff.1 hb
          exact .crate hroot
        · cases hs
    · cases hs
      obtain ⟨rfl, rfl⟩ := Meaning.get_only_eq_some_iff.1 hb
      exact .enclosing (Or.inl rfl)
  · cases hs
  · next first rest _ _ =>
    -- A plain first name is looked up in scope, or before 2018 from the root.
    dsimp only at hs
    generalize hfound : (if use = .inImport ∧ view.own.edition.hasUniformPaths = false
      then view.meaningFromRoot first else view.meaningInScope m first rest.isEmpty) = found at hs
    split at hs
    · cases hs
    · cases hs
      rw [← hfound] at hb
      split at hb
      · exact start_meaningFromRoot hb
      · exact start_meaningInScope hb

/-! ### Where they lead -/

/-- All that lookups from the module `m` can come to: where its paths start, and inside of a module
that was come to whatever `m` may name. -/
inductive Finds (view : View) (m : LocalId) : Namespace → Binding → Prop
  | start {ns : Namespace} {b : Binding} (h : view.Start m ns b) : Finds view m ns b
  | inside {host : Binding} (hhost : Finds view m .types host) (hkind : host.isModuleOrEnum = true)
      {inside : ModuleId} (hinside : view.locate? host.path = some inside) {name : Name}
      {ns : Namespace} {b : Binding} (hb : (view.meaning inside name).get ns = some b)
      (hvisible : b.visibility.isVisibleFrom view.tree m = true) : Finds view m ns b

theorem finds_visible {host : Binding} (hhost : view.Finds m .types host)
    (hkind : host.isModuleOrEnum = true) {inside : ModuleId}
    (hinside : view.locate? host.path = some inside) {name : Name} {ns : Namespace} {b : Binding}
    (hb : ((view.meaning inside name).visible view.tree m).get ns = some b) :
    view.Finds m ns b := by
  rw [Meaning.visible, Meaning.get_filterVisibility, Option.filter_eq_some_iff] at hb
  exact .inside hhost hkind hinside hb.1 hb.2

theorem finds_follow {leavesCrate : Bool} {meaning : Meaning} {names : List Name}
    (h : ∀ ns b, meaning.get ns = some b → view.Finds m ns b) {ns : Namespace} {b : Binding}
    (hb : (view.follow m leavesCrate meaning names).meaning.get ns = some b) :
    view.Finds m ns b := by
  have hempty : ∀ settled, (Resolution.failed settled).meaning.get ns ≠ some b := by
    intro settled
    rw [show (Resolution.failed settled).meaning = ∅ from rfl, Meaning.get_empty]
    exact nofun
  induction names generalizing meaning leavesCrate with
  | nil => exact h ns b hb
  | cons name names ih =>
    rw [follow] at hb
    split at hb
    · exact absurd hb (hempty _)
    · next host hhost =>
      split at hb
      · next hkind =>
        split at hb
        · exact absurd hb (hempty _)
        · next inside hinside =>
          dsimp only at hb
          split at hb
          · exact absurd hb (hempty _)
          · exact ih (fun ns b => finds_visible (h .types host hhost) hkind hinside) hb
      · exact absurd hb (hempty _)

/-- A lookup that would come to `missing` if there were no module at the path of something in which
it looks names up. -/
def followOr (view : View) (missing : Resolution) (viewer : LocalId) (leavesCrate : Bool) :
    Meaning → List Name → Resolution
  | meaning, [] => { meaning, settled := true, leavesCrate }
  | meaning, name :: names =>
    match meaning.types with
    | none => .failed false
    | some host =>
      if host.isModuleOrEnum then
        match view.locate? host.path with
        | none => missing
        | some inside =>
          let isForeign := inside.crate != view.crate
          let inner := (view.meaning inside name).visible view.tree viewer
          if inner.isEmpty then .failed isForeign
          else followOr view missing viewer (leavesCrate || isForeign) inner names
      else .failed true

/-- With the result that a lookup has in that case this is the lookup itself. -/
theorem followOr_failed (leavesCrate : Bool) (meaning : Meaning) (names : List Name) :
    view.followOr (.failed true) m leavesCrate meaning names
      = view.follow m leavesCrate meaning names := by
  induction names generalizing meaning leavesCrate with
  | nil => rfl
  | cons name names ih =>
    cases htypes : meaning.types with
    | none => simp only [followOr, follow, htypes]
    | some host =>
      cases hinside : view.locate? host.path with
      | none => simp only [followOr, follow, htypes, hinside]
      | some inside => simp only [followOr, follow, htypes, hinside, ih]

/-- If there are modules at the paths of all that lookups can come to, then it makes no difference
what would be if there were none. -/
theorem followOr_eq_follow
    (hlocated : ∀ host, view.Finds m .types host → host.isModuleOrEnum = true →
      (view.locate? host.path).isSome)
    (missing : Resolution) {leavesCrate : Bool} {meaning : Meaning} {names : List Name}
    (h : ∀ ns b, meaning.get ns = some b → view.Finds m ns b) :
    view.followOr missing m leavesCrate meaning names
      = view.follow m leavesCrate meaning names := by
  rw [← followOr_failed]
  induction names generalizing meaning leavesCrate with
  | nil => rfl
  | cons name names ih =>
    rw [followOr, followOr]
    split
    · rfl
    · next host hhost =>
      have hfinds : view.Finds m .types host := h .types host hhost
      split
      · next hkind =>
        obtain ⟨inside, hinside⟩ := Option.isSome_iff_exists.1 (hlocated host hfinds hkind)
        rw [hinside]
        dsimp only
        rw [ih fun ns b => finds_visible hfinds hkind hinside]
      · rfl

/-- **What a path means is found where its paths start, or inside.** -/
theorem finds_resolve {path : Path} {use : PathUse} {ns : Namespace} {b : Binding}
    (hb : (view.resolve m path use).meaning.get ns = some b) : view.Finds m ns b := by
  unfold resolve at hb
  split at hb
  · rw [show (Resolution.failed _).meaning = ∅ from rfl, Meaning.get_empty] at hb
    cases hb
  · next meaning names hs =>
    exact finds_follow (fun ns b hb => .start (start_of_start hs hb)) hb

end View

/-! ### Privacy -/

/-- The module `m` may name all bindings of a meaning. -/
def Meaning.NameableFrom (t : ModuleTree) (m : LocalId) (meaning : Meaning) : Prop :=
  ∀ ns b, meaning.get ns = some b → b.visibility.isVisibleFrom t m = true

theorem Meaning.nameableFrom_only {t : ModuleTree} {m : LocalId} {b : Binding}
    (h : b.visibility = .everywhere) (ns : Namespace) : (only ns b).NameableFrom t m := by
  intro ns' b' hb'
  obtain ⟨-, rfl⟩ := get_only_eq_some_iff.1 hb'
  rw [h]
  rfl

/-- Everything that a path can start from respects privacy: a module may name what is bound in it,
the macros that are known everywhere are public, and a prelude is of another crate, of which only
the public names are seen. -/
structure View.Guarded (view : View) : Prop where
  rooted : view.tree.Rooted
  bindings : ∀ slot b, view.own.binding? slot = some b →
    b.visibility.isVisibleFrom view.tree slot.module = true
  macros : ∀ name b, view.own.macroPrelude.get? name = some b → b.visibility = .everywhere
  prelude : ∀ p, view.own.prelude = some p → p.crate ≠ view.crate

namespace View

variable {view : View} {m : LocalId}

theorem visibility_moduleBinding (view : View) (m : ModuleId) :
    (view.moduleBinding m).visibility = .everywhere := by
  unfold moduleBinding
  split <;> rfl

namespace Guarded

/-- The first step of a path, which sees everything in scope, finds nothing that is hidden from the
module that asks. -/
theorem start (h : view.Guarded) (hm : m.index < view.tree.size) {ns : Namespace} {b : Binding}
    (hs : view.Start m ns b) : b.visibility.isVisibleFrom view.tree m = true := by
  cases hs with
  | named houter hb =>
    -- The root encloses all modules, so that what is bound there is nameable from each.
    have hvisible := h.bindings _ b hb
    rcases houter with rfl | rfl
    · exact hvisible
    · exact Visibility.isVisibleFrom_inside (h.rooted m hm) hvisible
  | enclosing houter =>
    rw [view.visibility_moduleBinding]
    rfl
  | crate hroot =>
    rw [view.visibility_moduleBinding]
    rfl
  | ofPrelude hp hb hpublic => exact Visibility.isVisibleFrom_of_isPublic (hpublic (h.prelude _ hp))
  | known hb =>
    rw [h.macros _ b hb]
    rfl

/-- **A lookup respects privacy.**  In a guarded view a module may name whatever its paths mean. -/
theorem resolve (h : view.Guarded) (hm : m.index < view.tree.size) (path : Path) (use : PathUse) :
    (view.resolve m path use).meaning.NameableFrom view.tree m := by
  intro ns b hb
  cases finds_resolve hb with
  | start hs => exact h.start hm hs
  | inside hhost hkind hinside hb hvisible => exact hvisible

end Guarded

end View

end CrateScope
