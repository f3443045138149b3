import CrateScope.Binding

/-!
# The sources of names that came through globs

A slot that is bound by a glob import is marked with the module that the glob reads from.  A slot
without a mark is not bound at all, or by a declaration or a named import.

The marks are kept by module, so that a look-up goes through the names of one module only.  What
they are is known from `GlobSources.get?` alone.

## Main definitions

* `GlobSources` — the marks of some slots.
* `GlobSources.get?`, `GlobSources.insert`, `GlobSources.erase` — reading, setting and removing one.
-/

namespace CrateScope

/-- For some slots the modules from which globs bind them. -/
structure GlobSources where
  /-- The marks of the slots of each module. -/
  byModule : Listing LocalId (Listing (Name × Namespace) ModuleId) := ∅

namespace GlobSources

instance : EmptyCollection GlobSources := ⟨{}⟩

instance : Inhabited GlobSources := ⟨∅⟩

/-- The marks in a module. -/
def inModule (sources : GlobSources) (m : LocalId) : Listing (Name × Namespace) ModuleId :=
  (sources.byModule.get? m).getD ∅

/-- The marks with others in one module. -/
def setModule (sources : GlobSources) (m : LocalId)
    (marks : Listing (Name × Namespace) ModuleId) : GlobSources :=
  ⟨sources.byModule.insert m marks⟩

/-- The mark of a slot. -/
def get? (sources : GlobSources) (slot : Slot) : Option ModuleId :=
  (sources.inModule slot.module).get? (slot.name, slot.space)

/-- The marks with one more, in place of the one that the slot had. -/
def insert (sources : GlobSources) (slot : Slot) (source : ModuleId) : GlobSources :=
  sources.setModule slot.module
    ((sources.inModule slot.module).insert (slot.name, slot.space) source)

/-- The marks without that of a slot. -/
def erase (sources : GlobSources) (slot : Slot) : GlobSources :=
  sources.setModule slot.module ((sources.inModule slot.module).erase (slot.name, slot.space))

@[simp] theorem get?_empty (slot : Slot) : (∅ : GlobSources).get? slot = none := rfl

theorem inModule_setModule (sources : GlobSources) (m : LocalId)
    (marks : Listing (Name × Namespace) ModuleId) (m' : LocalId) :
    (sources.setModule m marks).inModule m' = if m' = m then marks else sources.inModule m' := by
  unfold inModule setModule
  rw [Listing.get?_insert]
  split <;> rfl

/-- A slot is known by its module and by its place there. -/
theorem slot_eq_iff {s t : Slot} :
    s = t ↔ s.module = t.module ∧ (s.name, s.space) = (t.name, t.space) := by
  cases s; cases t; simp

@[simp] theorem get?_insert (sources : GlobSources) (slot : Slot) (source : ModuleId) (t : Slot) :
    (sources.insert slot source).get? t = if t = slot then some source else sources.get? t := by
  unfold get? insert
  rw [inModule_setModule]
  by_cases hm : t.module = slot.module
  · rw [if_pos hm, Listing.get?_insert, hm]
    simp only [slot_eq_iff, hm, true_and]
  · rw [if_neg hm, if_neg fun h => hm (slot_eq_iff.1 h).1]

@[simp] theorem get?_erase (sources : GlobSources) (slot t : Slot) :
    (sources.erase slot).get? t = if t = slot then none else sources.get? t := by
  unfold get? erase
  rw [inModule_setModule]
  by_cases hm : t.module = slot.module
  · rw [if_pos hm, Listing.get?_erase, hm]
    simp only [slot_eq_iff, hm, true_and]
  · rw [if_neg hm, if_neg fun h => hm (slot_eq_iff.1 h).1]

end GlobSources

end CrateScope
