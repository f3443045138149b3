import CrateScope.Outline

/-!
# What a question about outlines overlooks

Most questions about two outlines do not depend on what was told on the way from one to the other,
and on few of the diagnostics.  They are relations that are reflexive and transitive, and hold
between an outline and the same one with something told or recorded that they do not look at.  The
walk over an item tree does nothing else where it skips or refuses something and where it judges a
visibility, and only queues an import in addition where it takes up a `use` or an `extern crate`.

## Main definitions

* `Outline.Overlooks` — such a relation, with the diagnostics that it looks at.
* `Outline.OverlooksImports` — one that does not look at imports either.

## Main results

* `Outline.Overlooks.judge` — it holds before and after a visibility is judged.
* `Outline.OverlooksImports.directives` — it holds before and after the imports of a module body.
-/

namespace CrateScope

namespace Outline

/-- A relation of outlines that does not look at what is told, and at no diagnostic but those that
`sees` picks.  An unresolved visibility is not one of them. -/
structure Overlooks (sees : Diagnostic → Bool) (R : Outline → Outline → Prop) : Prop where
  refl : ∀ o, R o o
  trans : ∀ {o o' o'' : Outline}, R o o' → R o' o'' → R o o''
  tell : ∀ (o : Outline) (level : Level) (text : String), R o (o.tell level text)
  diagnose : ∀ (o : Outline) {diagnostic : Diagnostic}, sees diagnostic = false →
    R o (o.diagnose diagnostic)
  unresolved : ∀ module name path, sees (.unresolvedVisibility module name path) = false

/-- It does not look at imports, nor at what is reported as incomplete. -/
structure OverlooksImports (sees : Diagnostic → Bool) (R : Outline → Outline → Prop) : Prop
    extends Overlooks sees R where
  enqueue : ∀ (o : Outline) (i : Import), R o (o.enqueue i)
  incomplete : ∀ module what, sees (.malformedItem module what) = false

variable {sees : Diagnostic → Bool} {R : Outline → Outline → Prop}

namespace Overlooks

variable (h : Overlooks sees R)

include h

/-- A loop is overlooked if each of its rounds is. -/
theorem foldl {α : Type} {f : Outline → α → Outline} (hf : ∀ o a, R o (f o a)) (as : List α)
    (o : Outline) : R o (as.foldl f o) := by
  induction as generalizing o with
  | nil => exact h.refl o
  | cons a as ih => exact h.trans (hf o a) (ih _)

theorem skip (o : Outline) (m : LocalId) {what : Incomplete}
    (hwhat : sees (.malformedItem (o.map.displayModule m) what) = false) : R o (o.skip m what) :=
  h.trans (h.tell o _ _) (h.diagnose _ hwhat)

theorem refuse (o : Outline) (slot : Slot)
    (hslot : sees (.duplicateDefinition (o.map.displayModule slot.module) slot.name slot.space)
      = false) : R o (o.refuse slot) :=
  h.trans (h.tell o _ _) (h.diagnose _ hslot)

theorem judge (o : Outline) (m : LocalId) (chain : List Name) (mark : WrittenVisibility)
    (name : Name) : R o (o.judge m chain mark name).1 := by
  unfold Outline.judge
  cases mark with
  | pub | unmarked | pubSelf | pubCrate => exact h.refl o
  | pubSuper =>
    simp only
    split
    · exact h.refl o
    · exact h.tell o _ _
  | pubIn text =>
    simp only
    split
    · exact h.refl o
    · exact h.trans (h.tell o _ _) (h.diagnose _ (h.unresolved _ _ _))

end Overlooks

namespace OverlooksImports

variable (h : OverlooksImports sees R) (m : LocalId) (chain : List Name)

include h

theorem addUse (o : Outline) (leaf : UseLeaf) : R o (addUse m chain o leaf) := by
  unfold Outline.addUse
  simp only
  split
  · exact h.skip o m (h.incomplete _ _)
  · split
    · exact h.trans (h.judge o m chain _ _) (h.enqueue _ _)
    · split
      · exact h.skip o m (h.incomplete _ _)
      · split
        · exact h.tell o _ _
        · exact h.trans (h.judge o m chain _ _) (h.enqueue _ _)

theorem addExternCrate (o : Outline) (declaration : ExternCrate) :
    R o (addExternCrate m chain o declaration) := by
  unfold Outline.addExternCrate
  split
  · exact h.skip o m (h.incomplete _ _)
  · exact h.trans (h.judge o m chain _ _) (h.enqueue _ _)

/-- What brings names into a module is overlooked as a whole. -/
theorem directives (o : Outline) (uses : List UseLeaf) (externCrates : List ExternCrate) :
    R o (externCrates.foldl (Outline.addExternCrate m chain)
      (uses.foldl (Outline.addUse m chain) o)) :=
  h.trans (h.foldl (h.addUse m chain) uses o) (h.foldl (h.addExternCrate m chain) externCrates _)

end OverlooksImports

end Outline

end CrateScope
